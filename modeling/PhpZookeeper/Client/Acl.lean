import Mathlib.Data.List.TakeWhile
import PhpZookeeper.Client.Methods

/-!
# Access control lists

An access control list is an array of arrays on the side of PHP, and a `struct ACL_vector` with a
block of entries and two strings for each on the side of the client library. `php_parse_acl_list`
converts the one to the other and allocates, `php_aclv_destroy` releases, and `php_aclv_to_array`
converts back. `aclExact_iff` says when `setAcl` and `create` hand over the right list and release
what was allocated for it, and `acl_round_trip` that a list survives both conversions.

A value that a `&` reference shares between two slots of an array is not in the model.
-/

namespace PhpZookeeper.AclList

open Theory Status

/-! ### PHP values -/

/-- A key of a PHP array. -/
inductive PhpKey where
  | index (n : ℕ)
  | name (s : CString)
  deriving DecidableEq, Repr

/-- A PHP value. A double, an object or a resource is known by what the conversions make of it. -/
inductive PhpValue where
  | null
  | bool (b : Bool)
  | long (n : Int64)
  | string (s : CString)
  | array (entries : List (PhpKey × PhpValue))
  | other (asLong : Int64) (asString : CString)

/-- A PHP array: its slots, in order. -/
abbrev PhpArray := List (PhpKey × PhpValue)

/-- `zend_hash_find`, of a string key. -/
def zendHashFind (fields : PhpArray) (key : String) : Option PhpValue :=
  (fields.find? fun e => e.1 = .name key.toList).map (·.2)

/-- The value in the slot of a key is replaced. -/
def replaceSlot (fields : PhpArray) (key : String) (v : PhpValue) : PhpArray :=
  fields.map fun e => if e.1 = .name key.toList then (e.1, v) else e

/-- `isspace` -/
def isSpace (c : Char) : Bool := c = ' ' || (9 ≤ c.toNat && c.toNat ≤ 13)

/-- The number at the front of a string, after `n`. -/
def leadingNumber (n : ℕ) : CString → ℕ
  | c :: s => if c.isDigit then leadingNumber (10 * n + (c.toNat - 48)) s else n
  | [] => n

/-- A number of 64 bits, the nearest to `z`. -/
def clamp (z : ℤ) : Int64 := Int64.ofInt (max (-2 ^ 63) (min (2 ^ 63 - 1) z))

/-- `strtol(s, NULL, 10)` -/
def strtol (s : CString) : Int64 :=
  match s.dropWhile isSpace with
  | '-' :: s => clamp (-leadingNumber 0 s)
  | '+' :: s => clamp (leadingNumber 0 s)
  | s => clamp (leadingNumber 0 s)

/-- `convert_to_long` -/
def convertToLong : PhpValue → Int64
  | .null => 0
  | .bool b => if b then 1 else 0
  | .long n => n
  | .string s => strtol s
  | .array a => if a.isEmpty then 0 else 1
  | .other n _ => n

/-- `convert_to_string` -/
def convertToString : PhpValue → CString
  | .null => []
  | .bool b => if b then ['1'] else []
  | .long n => (toString n.toInt).toList
  | .string s => s
  | .array _ => "Array".toList
  | .other _ s => s

/-! ### Memory -/

/-- The character that ends a C string. -/
def nul : Char := Char.ofNat 0

/-- The C string that a PHP string is taken for. -/
def cStringOf (s : CString) : CString := s.takeWhile (· ≠ nul)

theorem cStringOf_eq {s : CString} (h : nul ∉ s) : cStringOf s = s := by
  refine List.takeWhile_eq_self_iff.mpr fun c hc => ?_
  have hne : c ≠ nul := fun heq => h (heq ▸ hc)
  simpa using hne

/-- `struct ACL` -/
structure CAcl where
  perms : Int32 := 0
  /-- `id.scheme` -/
  scheme : Option Ptr := none
  /-- `id.id` -/
  id : Option Ptr := none
  deriving DecidableEq, Repr, Inhabited

/-- What has been allocated. -/
inductive CBlock where
  | acls (data : List CAcl)
  | chars (s : CString)
  deriving DecidableEq, Repr

/-- The memory of `malloc`. -/
structure CHeap where
  blocks : Ptr → Option CBlock := fun _ => none
  /-- Where the next block is allocated. -/
  next : ℕ := 0
  /-- What has been released, the first one first. -/
  released : List Ptr := []

/-- `struct ACL_vector` -/
structure AclVector where
  count : ℤ
  data : Option Ptr
  deriving DecidableEq, Repr

namespace CHeap

/-- A new block. -/
def alloc (h : CHeap) (b : CBlock) : CHeap :=
  { h with blocks := Function.update h.blocks h.next (some b), next := h.next + 1 }

/-- `strdup(s)`, at `h.next` -/
def strdup (h : CHeap) (s : CString) : CHeap := h.alloc (.chars (cStringOf s))

/-- `calloc(size, sizeof(struct ACL))`, at `h.next` -/
def callocAcls (h : CHeap) (size : ℕ) : CHeap := h.alloc (.acls (List.replicate size {}))

/-- `free(p)` -/
def free (h : CHeap) : Option Ptr → CHeap
  | none => h
  | some p => { h with blocks := Function.update h.blocks p none, released := h.released ++ [p] }

/-- The entries at `p`, if there are entries. -/
def acls (h : CHeap) (p : Ptr) : Option (List CAcl) :=
  match h.blocks p with
  | some (.acls l) => some l
  | _ => none

/-- The string at `p`, if there is one. -/
def chars (h : CHeap) (p : Ptr) : Option CString :=
  match h.blocks p with
  | some (.chars s) => some s
  | _ => none

/-- `data[i] = a` -/
def setEntry (h : CHeap) (data : Ptr) (i : ℕ) (a : CAcl) : CHeap :=
  match h.acls data with
  | some l => { h with blocks := Function.update h.blocks data (some (.acls (l.set i a))) }
  | none => h

/-- `data[i]`; `none` outside the block. -/
def readEntry (h : CHeap) (data : Option Ptr) (i : ℕ) : Option CAcl := do
  let l ← h.acls (← data)
  l[i]?

/-- What the client library reads of an entry. -/
def entry (h : CHeap) (a : CAcl) : Option AclEntry := do
  return { perms := a.perms, scheme := ← h.chars (← a.scheme), id := ← h.chars (← a.id) }

/-- What the client library reads of `n` entries from the `i`-th on. -/
def entries (h : CHeap) (data : Option Ptr) : ℕ → ℕ → Option (List AclEntry)
  | 0, _ => some []
  | n + 1, i => do
    return (← h.entry (← h.readEntry data i)) :: (← h.entries data n (i + 1))

/-- What the client library reads of a vector; `none` when it reads outside the blocks. -/
def vector (h : CHeap) (v : AclVector) : Option (List AclEntry) :=
  h.entries v.data v.count.toNat 0

end CHeap

/-! ### The conversions -/

/-- `perms`, `scheme` and `id` of an entry that is an array with all three. -/
def aclFields : PhpValue → Option (PhpValue × PhpValue × PhpValue)
  | .array fields => do
    return (← zendHashFind fields "perms", ← zendHashFind fields "scheme",
      ← zendHashFind fields "id")
  | _ => none

/-- `convert_to_long_ex` and `convert_to_string_ex` convert in the slots of the entry. -/
def convertFields (x : PhpValue × PhpValue × PhpValue) : PhpValue → PhpValue
  | .array fields =>
    .array (replaceSlot (replaceSlot (replaceSlot fields "perms" (.long (convertToLong x.1)))
      "scheme" (.string (convertToString x.2.1))) "id" (.string (convertToString x.2.2)))
  | v => v

/-- The loop of `php_parse_acl_list`: the array with its slots converted, the number of entries
filled, and the memory. -/
def parseEntries (data : Ptr) : PhpArray → ℕ → CHeap → PhpArray × ℕ × CHeap
  | [], i, h => ([], i, h)
  | (key, entry) :: acl, i, h =>
    match aclFields entry with
    | some (perms, scheme, id) =>
      let idPtr := h.next
      let h := h.strdup (convertToString id)
      let schemePtr := h.next
      let h := h.strdup (convertToString scheme)
      let h := h.setEntry data i
        { perms := (convertToLong perms).toInt32, scheme := some schemePtr, id := some idPtr }
      let (acl, n, h) := parseEntries data acl (i + 1) h
      ((key, convertFields (perms, scheme, id) entry) :: acl, n, h)
    | none =>
      let (acl, n, h) := parseEntries data acl i h
      ((key, entry) :: acl, n, h)

/-- `php_parse_acl_list`: it leaves the vector alone when there is no entry. -/
def phpParseAclList (zAcl : Option PhpArray) (aclv : AclVector) (h : CHeap) :
    Option PhpArray × AclVector × CHeap :=
  match zAcl with
  | none | some [] => (zAcl, aclv, h)
  | some acl =>
    let (acl', n, h') := parseEntries h.next acl 0 (h.callocAcls acl.length)
    (some acl', { count := n, data := some h.next }, h')

/-- The loop of `php_aclv_destroy`, for `n` entries from the `i`-th on. -/
def destroyEntries (data : Option Ptr) : ℕ → ℕ → CHeap → Option CHeap
  | 0, _, h => some h
  | n + 1, i, h =>
    match h.readEntry data i with
    | some a => destroyEntries data n (i + 1) ((h.free a.id).free a.scheme)
    | none => none

/-- `php_aclv_destroy`; `none` when it reads outside the blocks. -/
def phpAclvDestroy (aclv : AclVector) (h : CHeap) : Option CHeap :=
  (destroyEntries aclv.data aclv.count.toNat 0 h).map fun h => h.free aclv.data

/-- The array that `php_aclv_to_array` makes of an entry. -/
def entryToArray (a : AclEntry) : PhpValue :=
  .array [(.name "perms".toList, .long a.perms.toInt64),
    (.name "scheme".toList, .string (cStringOf a.scheme)),
    (.name "id".toList, .string (cStringOf a.id))]

/-- `php_aclv_to_array`, of the entries of the vector. -/
def phpAclvToArray (acl : List AclEntry) : PhpArray :=
  acl.mapIdx fun i a => (.index i, entryToArray a)

/-! ### The methods -/

/-- A request with an access control list. -/
inductive AclRequest where
  | zooSetAcl (path : CString) (version : Int32) (acl : AclVector)
  /-- The list may be `NULL`. -/
  | zooCreate (path : CString) (value : Option Bytes) (acl : Option AclVector) (flags : Int32)
      (pathBufferLen : ℕ)

/-- The list that is handed over. -/
def AclRequest.acl : AclRequest → Option AclVector
  | .zooSetAcl _ _ acl => some acl
  | .zooCreate _ _ acl _ _ => acl

/-- How a method returns. -/
structure Returned where
  value : PhpValue
  /-- The request it has made, and the memory at that time. -/
  request : Option (AclRequest × CHeap)
  /-- The caller's array. -/
  argument : Option PhpArray
  heap : CHeap
  /-- The warnings it has raised. -/
  warnings : List ExtOp

/-- `ZK_METHOD_FETCH_OBJECT` of an object without a handle. -/
def notConnected (argument : Option PhpArray) (h : CHeap) : Returned where
  value := .null
  request := none
  argument := argument
  heap := h
  warnings := [.warning "Zookeeper connect was not called"]

/-- `Zookeeper::setAcl`, when the server's answer is `status` and the local variable `aclv` holds
`aclv` before it is set; `none` when memory is read that is not there. -/
def setAcl (o : ZkObject) (path : CString) (version : Int64) (aclInfo : PhpArray) (aclv : AclVector)
    (status : Status) (h : CHeap) : Option Returned :=
  match o.zk with
  | none => some (notConnected aclInfo h)
  | some _ =>
    let (argument, aclv, h₁) := phpParseAclList (some aclInfo) aclv h
    match phpAclvDestroy aclv h₁ with
    | none => none
    | some h₂ => some {
        value := if status ≠ ZOK then .null else .bool true
        request := some (.zooSetAcl path version.toInt32 aclv, h₁)
        argument := argument
        heap := h₂
        warnings := if status ≠ ZOK then [.warningStatus status] else [] }

/-- `ZOO_SEQUENCE` -/
def zooSequence : Int64 := 2

/-- `realpath_max` -/
def realpathMax (path : CString) (flags : Int64) : ℕ :=
  path.length + 1 + if flags &&& zooSequence ≠ 0 then 11 else 0

/-- `Zookeeper::create`, when the server's answer is `reply`. The buffer `realpath` is Zend's
memory. -/
def create (o : ZkObject) (path : CString) (value : Option Bytes) (aclInfo : Option PhpArray)
    (flags : Int64) (reply : Reply) (h : CHeap) : Returned :=
  match o.zk with
  | none => notConnected aclInfo h
  | some _ =>
    let (argument, aclv, h₁) := phpParseAclList aclInfo { count := 0, data := none } h
    { value := if reply.rc ≠ ZOK then .null
        else .string (reply.realPath.take (realpathMax path flags - 1))
      request := some (.zooCreate path value (if aclInfo.isSome then some aclv else none)
        flags.toInt32 (realpathMax path flags), h₁)
      argument := argument
      heap := h₁
      warnings := if reply.rc ≠ ZOK then [.warningStatus reply.rc] else [] }

/-- What `Zookeeper::getAcl` returns: the two elements of its array. -/
structure GetAclResult where
  statInfo : List (String × StatValue)
  aclInfo : PhpArray

/-- `Zookeeper::getAcl`, when the server's answer is `status`, `acl` and `stat`. -/
def getAcl (o : ZkObject) (status : Status) (acl : List AclEntry) (stat : FullStat) :
    Option GetAclResult :=
  match o.zk with
  | none => none
  | some _ => if status ≠ ZOK then none
    else some { statInfo := phpStatToArray stat, aclInfo := phpAclvToArray acl }

/-! ### What the list is to be -/

/-- The entry that is made of three values. -/
def entryOf (x : PhpValue × PhpValue × PhpValue) : AclEntry where
  perms := (convertToLong x.1).toInt32
  scheme := convertToString x.2.1
  id := convertToString x.2.2

/-- The complete entries of an array, in order. -/
def completeEntries (acl : PhpArray) : List AclEntry :=
  acl.filterMap fun e => (aclFields e.2).map entryOf

/-- No string of a list has a NUL. -/
def NulFree (l : List AclEntry) : Prop := ∀ a ∈ l, nul ∉ a.scheme ∧ nul ∉ a.id

/-- The entry with C strings. -/
def cut (a : AclEntry) : AclEntry :=
  { a with scheme := cStringOf a.scheme, id := cStringOf a.id }

theorem map_cut {l : List AclEntry} (h : NulFree l) : l.map cut = l := by
  conv_rhs => rw [← List.map_id l]
  refine List.map_congr_left fun a ha => ?_
  obtain ⟨hs, hi⟩ := h a ha
  simp [cut, cStringOf_eq hs, cStringOf_eq hi]

/-- The client library reads the list `l` in the vector. -/
def Holds (h : CHeap) (v : AclVector) (l : List AclEntry) : Prop :=
  v.count = l.length ∧ h.vector v = some l

/-- Everything that has been allocated between `h` and `h'` has been released once, and nothing
else. -/
def ReleasesOwn (h h' : CHeap) : Prop :=
  ∃ L, h'.released = h.released ++ L ∧ L.Perm (List.range' h.next (h'.next - h.next))

/-- A method that has returned has handed over the complete entries of its array, or `NULL` for
none, and has released its own. -/
def Returned.Exact (r : Returned) (acl : Option PhpArray) (h : CHeap) : Prop :=
  (∀ c h₁, r.request = some (c, h₁) → match c.acl, acl with
    | some v, some a => Holds h₁ v (completeEntries a)
    | v, a => v = none ∧ a = none) ∧ ReleasesOwn h r.heap

/-! ### Filled entries -/

/-- From the `i`-th entry on, the list `l` is in memory, with its strings from `base` on. -/
def Filled (h : CHeap) (data : ℕ) : ℕ → ℕ → List AclEntry → Prop
  | _, _, [] => True
  | i, base, a :: l =>
    h.readEntry (some data) i =
        some { perms := a.perms, scheme := some (base + 1), id := some base } ∧
      h.chars base = some a.id ∧ h.chars (base + 1) = some a.scheme ∧
      Filled h data (i + 1) (base + 2) l

section Filled

variable {h h' : CHeap} {data base i : ℕ} {l : List AclEntry}

theorem CHeap.acls_congr (hb : h'.blocks data = h.blocks data) : h'.acls data = h.acls data := by
  unfold CHeap.acls
  rw [hb]

theorem CHeap.chars_congr {p : Ptr} (hb : h'.blocks p = h.blocks p) : h'.chars p = h.chars p := by
  unfold CHeap.chars
  rw [hb]

theorem CHeap.readEntry_some (h : CHeap) (data : Ptr) (i : ℕ) :
    h.readEntry (some data) i = (h.acls data).bind fun l => l[i]? := rfl

/-- Other blocks do not matter. -/
theorem Filled.congr (hf : Filled h data i base l) (hdata : h'.blocks data = h.blocks data)
    (hstrings : ∀ p : ℕ, base ≤ p → h'.blocks p = h.blocks p) : Filled h' data i base l := by
  induction l generalizing i base with
  | nil => trivial
  | cons a l ih =>
    obtain ⟨hread, hid, hscheme, hrest⟩ := hf
    refine ⟨?_, ?_, ?_, ih hrest fun p hp => hstrings p (by omega)⟩
    · rw [← hread, CHeap.readEntry_some, CHeap.acls_congr hdata]
      rfl
    · rw [CHeap.chars_congr (hstrings base le_rfl), hid]
    · rw [CHeap.chars_congr (hstrings (base + 1) (by omega)), hscheme]

/-- The client library reads what has been filled. -/
theorem Filled.entries (hf : Filled h data i base l) :
    h.entries (some data) l.length i = some l := by
  induction l generalizing i base with
  | nil => rfl
  | cons a l ih =>
    obtain ⟨hread, hid, hscheme, hrest⟩ := hf
    simp [CHeap.entries, hread, CHeap.entry, hid, hscheme, ih hrest]

/-- The loop of `php_aclv_destroy` releases the strings, each once. -/
theorem destroyEntries_of_filled (hf : Filled h data i base l) (hlt : data < base) :
    ∃ h', destroyEntries (some data) l.length i h = some h' ∧ h'.next = h.next ∧
      h'.released = h.released ++ List.range' base (2 * l.length) := by
  induction l generalizing i base h with
  | nil => exact ⟨h, rfl, rfl, by simp⟩
  | cons a l ih =>
    obtain ⟨hread, -, -, hrest⟩ := hf
    let h₁ : CHeap := (h.free (some base)).free (some (base + 1))
    have hblocks : ∀ p : ℕ, p < base ∨ base + 2 ≤ p → h₁.blocks p = h.blocks p := by
      intro p hp
      have hne : p ≠ base := by omega
      have hne' : p ≠ base + 1 := by omega
      simp [h₁, CHeap.free, hne, hne']
    have hfilled : Filled h₁ data (i + 1) (base + 2) l :=
      hrest.congr (hblocks data (.inl hlt)) fun p hp => hblocks p (.inr hp)
    obtain ⟨h', hdestroy, hnext, hreleased⟩ := ih hfilled (by omega)
    refine ⟨h', ?_, hnext, ?_⟩
    · simp only [List.length_cons, destroyEntries, hread]
      exact hdestroy
    · rw [hreleased, List.length_cons, Nat.mul_succ, List.range'_succ, List.range'_succ]
      simp [h₁, CHeap.free]

end Filled

/-! ### The loop of `php_parse_acl_list` -/

/-- What the loop does, from the `i`-th entry on: `n` is its count and `h'` the memory after it. -/
structure Parsed (data : ℕ) (acl : PhpArray) (i : ℕ) (h : CHeap) (n : ℕ) (h' : CHeap) : Prop where
  /-- It counts the complete entries. -/
  count : n = i + (completeEntries acl).length
  /-- It allocates two strings for each. -/
  next : h'.next = h.next + 2 * (completeEntries acl).length
  /-- It releases nothing. -/
  released : h'.released = h.released
  /-- It fills the entries, in order. -/
  filled : Filled h' data i h.next ((completeEntries acl).map cut)
  /-- The entries before are as they were. -/
  before : ∀ j < i, h'.readEntry (some data) j = h.readEntry (some data) j
  /-- The other blocks are as they were. -/
  frame : ∀ p < h.next, p ≠ data → h'.blocks p = h.blocks p

/-- An entry is filled. -/
def fillEntry (h : CHeap) (data i : ℕ) (a : AclEntry) : CHeap :=
  ((h.strdup a.id).strdup a.scheme).setEntry data i
    { perms := a.perms, scheme := some (h.next + 1), id := some h.next }

theorem parseEntries_complete {data i : ℕ} {key : PhpKey} {v : PhpValue} {acl : PhpArray}
    {h : CHeap} {x : PhpValue × PhpValue × PhpValue} (hx : aclFields v = some x) :
    (parseEntries data ((key, v) :: acl) i h).2 =
      (parseEntries data acl (i + 1) (fillEntry h data i (entryOf x))).2 := by
  simp only [parseEntries, hx]
  rfl

theorem parseEntries_skipped {data i : ℕ} (key : PhpKey) {v : PhpValue} {acl : PhpArray}
    {h : CHeap} (hx : aclFields v = none) :
    (parseEntries data ((key, v) :: acl) i h).2 = (parseEntries data acl i h).2 := by
  simp only [parseEntries, hx]

theorem completeEntries_complete {key : PhpKey} {v : PhpValue} {acl : PhpArray}
    {x : PhpValue × PhpValue × PhpValue} (hx : aclFields v = some x) :
    completeEntries ((key, v) :: acl) = entryOf x :: completeEntries acl := by
  simp [completeEntries, hx]

theorem completeEntries_skipped (key : PhpKey) {v : PhpValue} {acl : PhpArray}
    (hx : aclFields v = none) : completeEntries ((key, v) :: acl) = completeEntries acl := by
  simp [completeEntries, hx]

section Fill

variable {h : CHeap} {data i : ℕ} {l : List CAcl} (a : AclEntry)

theorem fillEntry_eq (hdata : h.acls data = some l) (hlt : data < h.next) :
    fillEntry h data i a =
      { blocks := Function.update (Function.update (Function.update h.blocks h.next
          (some (.chars (cStringOf a.id)))) (h.next + 1) (some (.chars (cStringOf a.scheme)))) data
          (some (.acls (l.set i
            { perms := a.perms, scheme := some (h.next + 1), id := some h.next })))
        next := h.next + 2
        released := h.released } := by
  have hacls : ((h.strdup a.id).strdup a.scheme).acls data = some l := by
    rw [← hdata]
    refine CHeap.acls_congr ?_
    have hne : data ≠ h.next := by omega
    have hne' : data ≠ h.next + 1 := by omega
    simp [CHeap.strdup, CHeap.alloc, hne, hne']
  unfold fillEntry CHeap.setEntry
  rw [hacls]
  rfl

theorem fillEntry_acls (hdata : h.acls data = some l) (hlt : data < h.next) :
    (fillEntry h data i a).acls data =
      some (l.set i { perms := a.perms, scheme := some (h.next + 1), id := some h.next }) := by
  rw [fillEntry_eq a hdata hlt]
  simp [CHeap.acls]

/-- The blocks that are there already keep what they hold, but for the entries. -/
theorem fillEntry_frame (hdata : h.acls data = some l) (hlt : data < h.next) {p : ℕ}
    (hp : p < h.next) (hne : p ≠ data) : (fillEntry h data i a).blocks p = h.blocks p := by
  have hid : p ≠ h.next := by omega
  have hscheme : p ≠ h.next + 1 := by omega
  simp [fillEntry_eq a hdata hlt, hne, hid, hscheme]

theorem fillEntry_chars (hdata : h.acls data = some l) (hlt : data < h.next) :
    (fillEntry h data i a).chars h.next = some (cStringOf a.id) ∧
      (fillEntry h data i a).chars (h.next + 1) = some (cStringOf a.scheme) := by
  have hid : h.next ≠ data := by omega
  have hscheme : h.next + 1 ≠ data := by omega
  constructor
  · simp [fillEntry_eq a hdata hlt, CHeap.chars, hid]
  · simp [fillEntry_eq a hdata hlt, CHeap.chars, hscheme]

end Fill

/-- The loop fills the complete entries, when the block has room for the slots that are left. -/
theorem parseEntries_spec {data : ℕ} (acl : PhpArray) {i : ℕ} {h : CHeap} {l : List CAcl}
    (hdata : h.acls data = some l) (hlt : data < h.next) (hroom : i + acl.length ≤ l.length) :
    Parsed data acl i h (parseEntries data acl i h).2.1 (parseEntries data acl i h).2.2 := by
  induction acl generalizing i h l with
  | nil => exact ⟨rfl, rfl, rfl, trivial, fun _ _ => rfl, fun _ _ _ => rfl⟩
  | cons slot acl ih =>
    obtain ⟨key, v⟩ := slot
    rw [List.length_cons] at hroom
    cases hx : aclFields v with
    | none =>
      obtain ⟨hcount, hnext, hreleased, hfilled, hbefore, hframe⟩ :=
        ih (i := i) hdata hlt (by omega)
      rw [← parseEntries_skipped key hx] at hcount hnext hreleased hfilled hbefore hframe
      rw [← completeEntries_skipped key hx] at hcount hnext hfilled
      exact ⟨hcount, hnext, hreleased, hfilled, hbefore, hframe⟩
    | some x =>
      let a := entryOf x
      let h₁ := fillEntry h data i a
      have hacls : h₁.acls data = _ := fillEntry_acls a hdata hlt
      have hnext₁ : h₁.next = h.next + 2 := by rw [show h₁ = _ from fillEntry_eq a hdata hlt]
      have hreleased₁ : h₁.released = h.released := by
        rw [show h₁ = _ from fillEntry_eq a hdata hlt]
      obtain ⟨hcount, hnext, hreleased, hfilled, hbefore, hframe⟩ :=
        ih (i := i + 1) hacls (by omega) (by rw [List.length_set]; omega)
      rw [parseEntries_complete hx]
      refine ⟨?_, ?_, ?_, ?_, ?_, ?_⟩
      · rw [hcount, completeEntries_complete hx, List.length_cons]
        omega
      · rw [hnext, hnext₁, completeEntries_complete hx, List.length_cons]
        omega
      · rw [hreleased, hreleased₁]
      · rw [completeEntries_complete hx, List.map_cons]
        obtain ⟨hid, hscheme⟩ := fillEntry_chars (i := i) a hdata hlt
        refine ⟨?_, ?_, ?_, by rwa [hnext₁] at hfilled⟩
        · rw [hbefore i (by omega), CHeap.readEntry_some, hacls, Option.bind_some,
            List.getElem?_set_self (by omega)]
          rfl
        · rw [CHeap.chars_congr (hframe h.next (by omega) (by omega)), hid]
          rfl
        · rw [CHeap.chars_congr (hframe (h.next + 1) (by omega) (by omega)), hscheme]
          rfl
      · intro j hj
        rw [hbefore j (by omega), CHeap.readEntry_some, CHeap.readEntry_some, hacls, hdata,
          Option.bind_some, Option.bind_some, List.getElem?_set_ne (by omega)]
      · intro p hp hne
        rw [hframe p (by omega) hne]
        exact fillEntry_frame a hdata hlt hp hne

/-! ### What is handed over and released -/

section Exact

variable {acl : PhpArray} {aclv : AclVector} {h : CHeap}

/-- An array with a slot is converted whole, whatever the vector is before. -/
theorem phpParseAclList_spec (aclv : AclVector) (h : CHeap) (hne : acl ≠ []) :
    ∃ argument n h', phpParseAclList (some acl) aclv h =
        (some argument, { count := (n : ℕ), data := some h.next }, h') ∧
      Parsed h.next acl 0 (h.callocAcls acl.length) n h' := by
  obtain ⟨slot, rest, rfl⟩ := List.exists_cons_of_ne_nil hne
  have hdata : (h.callocAcls (slot :: rest).length).acls h.next =
      some (List.replicate (slot :: rest).length {}) := by
    simp [CHeap.callocAcls, CHeap.alloc, CHeap.acls]
  have hparsed := parseEntries_spec (slot :: rest) (i := 0) hdata (Nat.lt_succ_self h.next)
    (by simp)
  exact ⟨_, _, _, rfl, hparsed⟩

/-- The vector holds the complete entries. -/
theorem Parsed.holds {n : ℕ} {h' : CHeap} (hp : Parsed h.next acl 0 (h.callocAcls acl.length) n h')
    (hnul : NulFree (completeEntries acl)) :
    Holds h' { count := n, data := some h.next } (completeEntries acl) := by
  have hfilled := hp.filled
  rw [map_cut hnul] at hfilled
  have hcount : n = (completeEntries acl).length := by
    have := hp.count
    omega
  refine ⟨by rw [hcount], ?_⟩
  rw [CHeap.vector, hcount]
  exact hfilled.entries

/-- `php_aclv_destroy` releases what `php_parse_acl_list` has allocated. -/
theorem Parsed.destroyed {n : ℕ} {h' : CHeap}
    (hp : Parsed h.next acl 0 (h.callocAcls acl.length) n h') :
    ∃ h'', phpAclvDestroy { count := n, data := some h.next } h' = some h'' ∧
      ReleasesOwn h h'' := by
  have hcount : n = ((completeEntries acl).map cut).length := by
    have := hp.count
    rw [List.length_map]
    omega
  obtain ⟨h₂, hdestroy, hnext, hreleased⟩ :=
    destroyEntries_of_filled hp.filled (Nat.lt_succ_self h.next)
  have hnext' : h₂.next = h.next + (2 * n + 1) := by
    rw [hnext, hp.next, hcount, List.length_map]
    change h.next + 1 + _ = _
    omega
  refine ⟨h₂.free (some h.next), ?_, List.range' (h.next + 1) (2 * n) ++ [h.next], ?_, ?_⟩
  · rw [phpAclvDestroy, Int.toNat_natCast, hcount, hdestroy]
    rfl
  · change h₂.released ++ [h.next] = _
    rw [hreleased, hp.released, ← hcount, List.append_assoc]
    rfl
  · change List.Perm _ (List.range' h.next (h₂.next - h.next))
    rw [hnext', Nat.add_sub_cancel_left, List.range'_succ]
    exact List.perm_append_singleton _ _

theorem releasesOwn_refl (h : CHeap) : ReleasesOwn h h := ⟨[], by simp, by simp⟩

/-- A method of an object without a handle does nothing. -/
theorem notConnected_exact (acl : Option PhpArray) (h : CHeap) :
    (notConnected acl h).Exact acl h := by
  refine ⟨?_, releasesOwn_refl h⟩
  intro c h₁ hr
  cases hr

variable {o : ZkObject} {path : CString}

/-- `setAcl` hands over and releases the list of an array with a slot. -/
theorem setAcl_exact {version : Int64} {status : Status} (hnul : NulFree (completeEntries acl))
    (hne : acl ≠ []) : ∃ r, setAcl o path version acl aclv status h = some r ∧
      r.Exact (some acl) h := by
  cases hzk : o.zk with
  | none =>
    exact ⟨_, by simp only [setAcl, hzk], notConnected_exact (some acl) h⟩
  | some zk =>
    obtain ⟨argument, n, h', hparse, hp⟩ := phpParseAclList_spec aclv h hne
    obtain ⟨h'', hdestroy, hreleases⟩ := hp.destroyed
    refine ⟨_, by simp only [setAcl, hzk, hparse, hdestroy]; rfl, ?_, hreleases⟩
    intro c h₁ hr
    obtain ⟨rfl, rfl⟩ := Prod.mk.inj (Option.some.inj hr)
    exact hp.holds hnul

/-- With the empty array `setAcl` hands over, and releases, what the variable is before. -/
theorem setAcl_empty_exact_iff {version : Int64} {status : Status} (hzk : o.zk ≠ none) :
    (∃ r, setAcl o path version [] aclv status h = some r ∧ r.Exact (some []) h) ↔
      aclv = { count := 0, data := none } := by
  obtain ⟨zk, hzk⟩ := Option.ne_none_iff_exists'.mp hzk
  obtain ⟨count, data⟩ := aclv
  constructor
  · rintro ⟨r, hr, hhanded, L, hreleased, hperm⟩
    simp only [setAcl, hzk, phpParseAclList] at hr
    cases hdestroy : phpAclvDestroy { count := count, data := data } h with
    | none => simp [hdestroy] at hr
    | some h₂ =>
      rw [hdestroy] at hr
      obtain rfl := Option.some.inj hr
      have hcount : count = 0 := (hhanded _ _ rfl).1
      subst hcount
      obtain rfl : h₂ = h.free data := (Option.some.inj hdestroy).symm
      cases data with
      | none => rfl
      | some p =>
        -- the variable's pointer has been released, and nothing has been allocated
        simp only [CHeap.free, Nat.sub_self, List.range'_zero, List.perm_nil] at hperm
        rw [hperm] at hreleased
        simp [CHeap.free] at hreleased
  · rintro heq
    rw [heq]
    refine ⟨_, by simp only [setAcl, hzk]; rfl, ?_, releasesOwn_refl h⟩
    intro c h₁ hr
    obtain ⟨rfl, rfl⟩ := Prod.mk.inj (Option.some.inj hr)
    exact ⟨rfl, rfl⟩

/-- `create` releases nothing. -/
theorem create_exact_iff {value : Option Bytes} {flags : Int64} {reply : Reply}
    {acl : Option PhpArray} (hzk : o.zk ≠ none) :
    (create o path value acl flags reply h).Exact acl h ↔ acl = none ∨ acl = some [] := by
  obtain ⟨zk, hzk⟩ := Option.ne_none_iff_exists'.mp hzk
  have hcreate : ∀ acl, ∃ value' warnings, create o path value acl flags reply h =
      { value := value'
        request := some (.zooCreate path value
          (if acl.isSome then some (phpParseAclList acl { count := 0, data := none } h).2.1
            else none) flags.toInt32 (realpathMax path flags),
          (phpParseAclList acl { count := 0, data := none } h).2.2)
        argument := (phpParseAclList acl { count := 0, data := none } h).1
        heap := (phpParseAclList acl { count := 0, data := none } h).2.2
        warnings := warnings } := by
    intro acl
    simp only [create, hzk]
    exact ⟨_, _, rfl⟩
  constructor
  · rintro ⟨-, L, hreleased, hperm⟩
    by_contra hacl
    obtain ⟨hnone, hempty⟩ := not_or.mp hacl
    obtain ⟨acl, rfl⟩ := Option.ne_none_iff_exists'.mp hnone
    have hne : acl ≠ [] := fun heq => hempty (by rw [heq])
    obtain ⟨value', warnings, heq⟩ := hcreate (some acl)
    obtain ⟨argument, n, h', hparse, hp⟩ :=
      phpParseAclList_spec { count := 0, data := none } h hne
    rw [heq, hparse] at hreleased hperm
    -- nothing has been released, and the entries have been allocated
    have hL : L = [] := by
      have := hp.released.symm.trans hreleased
      simpa [CHeap.callocAcls, CHeap.alloc] using this
    have hlength := hperm.length_eq
    rw [hL, List.length_range', hp.next] at hlength
    change 0 = h.next + 1 + _ - h.next at hlength
    omega
  · rintro (rfl | rfl)
    · obtain ⟨value', warnings, heq⟩ := hcreate none
      rw [heq]
      refine ⟨?_, releasesOwn_refl h⟩
      intro c h₁ hr
      obtain ⟨rfl, rfl⟩ := Prod.mk.inj (Option.some.inj hr)
      exact ⟨rfl, rfl⟩
    · obtain ⟨value', warnings, heq⟩ := hcreate (some [])
      rw [heq]
      refine ⟨?_, releasesOwn_refl h⟩
      intro c h₁ hr
      obtain ⟨rfl, rfl⟩ := Prod.mk.inj (Option.some.inj hr)
      exact ⟨rfl, rfl⟩

end Exact

/-- **The right list is handed over, and all that was allocated for it is released once and nothing
else: by `setAcl` for an array with a slot, and for the empty one when its variable happens to hold
no entry and `NULL`; by `create` for no array and the empty one.** An object without a handle gets
its warning before. -/
theorem aclExact_iff (o : ZkObject) (path : CString) (acl : PhpArray) (h : CHeap)
    (hnul : NulFree (completeEntries acl)) :
    (∀ version aclv status,
      (∃ r, setAcl o path version acl aclv status h = some r ∧ r.Exact (some acl) h) ↔
        o.zk = none ∨ acl ≠ [] ∨ aclv = { count := 0, data := none }) ∧
    (∀ value flags reply, (create o path value (some acl) flags reply h).Exact (some acl) h ↔
        o.zk = none ∨ acl = []) ∧
    ∀ value flags reply, (create o path value none flags reply h).Exact none h := by
  by_cases hzk : o.zk = none
  · have hset : ∀ version aclv status, setAcl o path version acl aclv status h =
        some (notConnected acl h) := by
      intro version aclv status
      simp only [setAcl, hzk]
    have hcreate : ∀ acl value flags reply, create o path value acl flags reply h =
        notConnected acl h := by
      intro acl value flags reply
      simp only [create, hzk]
    refine ⟨fun version aclv status => iff_of_true ?_ (.inl hzk),
      fun value flags reply => iff_of_true ?_ (.inl hzk), fun value flags reply => ?_⟩
    · exact ⟨_, hset version aclv status, notConnected_exact (some acl) h⟩
    · rw [hcreate]
      exact notConnected_exact (some acl) h
    · rw [hcreate]
      exact notConnected_exact none h
  · refine ⟨fun version aclv status => ?_, fun value flags reply => ?_,
      fun value flags reply => (create_exact_iff hzk).mpr (.inl rfl)⟩
    · by_cases hne : acl = []
      · rw [hne, setAcl_empty_exact_iff hzk]
        simp [hzk]
      · exact iff_of_true (setAcl_exact hnul hne) (.inr (.inl hne))
    · rw [create_exact_iff hzk]
      simp [hzk]

/-- An array of one complete entry. -/
def readableByAll : PhpArray :=
  [(.index 0, .array [(.name "perms".toList, .long 1),
    (.name "scheme".toList, .string "world".toList),
    (.name "id".toList, .string "anyone".toList)])]

/-- A connected object. -/
def connectedObject : ZkObject := { zk := some 1 }

/-- An array of three slots: the second has no `id` and is skipped, and the third has its fields in
another order, and its `perms` as a string. -/
def twoOfThree : PhpArray :=
  [(.index 0, .array [(.name "perms".toList, .long 1),
    (.name "scheme".toList, .string "world".toList),
    (.name "id".toList, .string "anyone".toList)]),
  (.index 1, .array [(.name "perms".toList, .long 31),
    (.name "scheme".toList, .string "world".toList)]),
  (.name "owner".toList, .array [(.name "id".toList, .string "user:hash".toList),
    (.name "perms".toList, .string "31".toList),
    (.name "scheme".toList, .string "digest".toList)])]

/-- The entries the server lists for it. -/
def twoEntries : List AclEntry :=
  [⟨1, "world".toList, "anyone".toList⟩, ⟨31, "digest".toList, "user:hash".toList⟩]

theorem completeEntries_twoOfThree : completeEntries twoOfThree = twoEntries := by decide

theorem nulFree_twoEntries : NulFree twoEntries := by
  rw [NulFree]
  decide

theorem aclExact_twoOfThree :
    (∃ r, setAcl connectedObject "/node".toList 0 twoOfThree { count := 3, data := some 7 } ZOK
        {} = some r ∧ r.Exact (some twoOfThree) {}) ∧
      ¬ (create connectedObject "/node".toList none (some twoOfThree) 0 { rc := ZOK } {}).Exact
        (some twoOfThree) {} := by
  obtain ⟨hset, hcreate, -⟩ := aclExact_iff connectedObject "/node".toList twoOfThree {}
    (completeEntries_twoOfThree ▸ nulFree_twoEntries)
  refine ⟨(hset _ _ _).mpr (.inr (.inl (by simp [twoOfThree]))), ?_⟩
  rw [hcreate]
  simp [connectedObject, twoOfThree]

/-- `setAcl` with the empty array, when its variable holds two entries and no address, reads outside
memory; `create` with an entry returns and keeps three blocks. -/
theorem acl_faults :
    (¬ ∃ r, setAcl connectedObject "/node".toList 0 [] { count := 2, data := none } ZOK {} =
      some r ∧ r.Exact (some []) {}) ∧
    ¬ (create connectedObject "/node".toList none (some readableByAll) 0 { rc := ZOK } {}).Exact
      (some readableByAll) {} := by
  have hzk : connectedObject.zk ≠ none := by decide
  refine ⟨fun h => ?_, fun h => ?_⟩
  · have := (setAcl_empty_exact_iff hzk).mp h
    simp at this
  · have := (create_exact_iff hzk).mp h
    simp [readableByAll] at this

/-! ### Both ways -/

/-- The array of an entry is complete, and the entry is the one it comes from. -/
theorem entryOf_entryToArray {a : AclEntry} (hs : nul ∉ a.scheme) (hi : nul ∉ a.id) :
    (aclFields (entryToArray a)).map entryOf = some a := by
  simp [entryToArray, aclFields, zendHashFind, entryOf, convertToLong, convertToString,
    cStringOf_eq hs, cStringOf_eq hi]

theorem completeEntries_phpAclvToArray {acl : List AclEntry} (hnul : NulFree acl) :
    completeEntries (phpAclvToArray acl) = acl := by
  induction acl using List.reverseRecOn with
  | nil => rfl
  | append_singleton acl a ih =>
    have hacl : NulFree acl := fun b hb => hnul b (List.mem_append_left _ hb)
    obtain ⟨hs, hi⟩ := hnul a (List.mem_append_right _ (List.mem_singleton_self a))
    have hlast := entryOf_entryToArray hs hi
    have hrest := ih hacl
    rw [completeEntries, phpAclvToArray] at hrest
    rw [completeEntries, phpAclvToArray, List.mapIdx_concat, List.filterMap_append, hrest]
    simp [hlast]

/-- **An access control list survives both conversions**: what `getAcl` returns is handed over by
`setAcl` as the list the server holds. -/
theorem acl_round_trip (o : ZkObject) (path : CString) (version : Int64) (aclv : AclVector)
    (acl : List AclEntry) (stat : FullStat) (status : Status) (h : CHeap) (hzk : o.zk ≠ none)
    (hne : acl ≠ []) (hnul : NulFree acl) :
    ∃ r r' v h', getAcl o ZOK acl stat = some r ∧
      setAcl o path version r.aclInfo aclv status h = some r' ∧
      r'.request = some (.zooSetAcl path version.toInt32 v, h') ∧ Holds h' v acl := by
  obtain ⟨zk, hzk⟩ := Option.ne_none_iff_exists'.mp hzk
  have hcomplete := completeEntries_phpAclvToArray hnul
  have hne' : phpAclvToArray acl ≠ [] := by
    intro hnil
    rw [hnil] at hcomplete
    exact hne hcomplete.symm
  obtain ⟨argument, n, h', hparse, hp⟩ := phpParseAclList_spec aclv h hne'
  obtain ⟨h'', hdestroy, -⟩ := hp.destroyed
  have hholds := hp.holds (by rwa [hcomplete])
  rw [hcomplete] at hholds
  refine ⟨{ statInfo := phpStatToArray stat, aclInfo := phpAclvToArray acl }, _, _, h', ?_,
    by simp only [setAcl, hzk, hparse, hdestroy]; rfl, rfl, hholds⟩
  simp only [getAcl, hzk]
  rfl

theorem acl_round_trip_two :
    ∃ r r' v h', getAcl connectedObject ZOK twoEntries {} = some r ∧
      setAcl connectedObject "/node".toList 0 r.aclInfo { count := 3, data := some 7 } ZOK {} =
        some r' ∧
      r'.request = some (.zooSetAcl "/node".toList (Int64.toInt32 0) v, h') ∧
      Holds h' v twoEntries :=
  acl_round_trip connectedObject "/node".toList 0 { count := 3, data := some 7 } twoEntries {} ZOK
    {} (by decide) (by decide) nulFree_twoEntries

end PhpZookeeper.AclList
