import PhpZookeeper.Client.Acl

/-!
# The caller's array

`php_parse_acl_list` reads the slots of the array that `create` and `setAcl` are called with, and
converts in them: a `perms` that is not an integer is one afterwards, a `scheme` or an `id` that is
not a string is one. `acl_unchanged_iff` says when the caller finds its array as it was.
-/

namespace PhpZookeeper.AclList

open Theory Status

/-- An array that a method may be called with: in a hash table no key stands twice. -/
structure AclArgument where
  slots : PhpArray
  distinct : ∀ e ∈ slots, ∀ fields, e.2 = .array fields → (fields.map Prod.fst).Nodup

/-- `Z_TYPE == IS_LONG` -/
def PhpValue.isLong : PhpValue → Bool
  | .long _ => true
  | _ => false

/-- `Z_TYPE == IS_STRING` -/
def PhpValue.isString : PhpValue → Bool
  | .string _ => true
  | _ => false

/-- Nothing is converted in an entry: it is skipped, or has an integer and two strings. -/
def entryTyped (v : PhpValue) : Bool :=
  match aclFields v with
  | some (perms, scheme, id) => perms.isLong && scheme.isString && id.isString
  | none => true

/-- Nothing is converted in an array. -/
def AclArgument.Typed (x : AclArgument) : Prop := ∀ e ∈ x.slots, entryTyped e.2 = true

/-- What the loop leaves of an entry. -/
def convertEntry (v : PhpValue) : PhpValue :=
  match aclFields v with
  | some x => convertFields x v
  | none => v

/-! ### Slots -/

section Slots

variable {fields : PhpArray} {key key' : String} {v w : PhpValue}

theorem zendHashFind_cons (e : PhpKey × PhpValue) (fields : PhpArray) (key : String) :
    zendHashFind (e :: fields) key =
      if e.1 = .name key.toList then some e.2 else zendHashFind fields key := by
  by_cases he : e.1 = .name key.toList <;> simp [zendHashFind, he]

theorem replaceSlot_cons (e : PhpKey × PhpValue) (fields : PhpArray) (key : String)
    (v : PhpValue) : replaceSlot (e :: fields) key v =
      (if e.1 = .name key.toList then (e.1, v) else e) :: replaceSlot fields key v := rfl

/-- The keys stay. -/
@[simp] theorem map_fst_replaceSlot (fields : PhpArray) (key : String) (v : PhpValue) :
    (replaceSlot fields key v).map Prod.fst = fields.map Prod.fst := by
  rw [replaceSlot, List.map_map]
  refine List.map_congr_left fun e _ => ?_
  simp only [Function.comp]
  split <;> rfl

/-- The slot holds the value that has been put there. -/
theorem zendHashFind_replaceSlot (h : zendHashFind fields key = some w) :
    zendHashFind (replaceSlot fields key v) key = some v := by
  induction fields with
  | nil => cases h
  | cons e fields ih =>
    rw [replaceSlot_cons, zendHashFind_cons]
    by_cases he : e.1 = .name key.toList
    · simp [he]
    · rw [zendHashFind_cons, if_neg he] at h
      rw [if_neg he, if_neg he, ih h]

/-- The other slots hold what they held. -/
theorem zendHashFind_replaceSlot_of_ne (h : key ≠ key') :
    zendHashFind (replaceSlot fields key v) key' = zendHashFind fields key' := by
  induction fields with
  | nil => rfl
  | cons e fields ih =>
    rw [replaceSlot_cons, zendHashFind_cons, zendHashFind_cons, ih]
    by_cases he : e.1 = .name key.toList
    · have hne : PhpKey.name key.toList ≠ .name key'.toList := fun heq =>
        h (String.toList_inj.mp (PhpKey.name.inj heq))
      rw [if_pos he, he, if_neg hne, if_neg hne]
    · rw [if_neg he]

/-- A slot that gets the value it holds. -/
theorem replaceSlot_self (hnodup : (fields.map Prod.fst).Nodup)
    (h : zendHashFind fields key = some v) : replaceSlot fields key v = fields := by
  induction fields with
  | nil => rfl
  | cons e fields ih =>
    rw [List.map_cons, List.nodup_cons] at hnodup
    rw [replaceSlot_cons]
    by_cases he : e.1 = .name key.toList
    · rw [zendHashFind_cons, if_pos he, Option.some.injEq] at h
      have hrest : replaceSlot fields key v = fields := by
        refine (List.map_congr_left fun x hx => if_neg ?_).trans (List.map_id _)
        intro hkey
        exact hnodup.1 (he.trans hkey.symm ▸ List.mem_map_of_mem hx)
      rw [if_pos he, hrest, ← h]
    · rw [zendHashFind_cons, if_neg he] at h
      rw [if_neg he, ih hnodup.2 h]

end Slots

/-! ### Entries -/

theorem exists_fields {v perms scheme id : PhpValue} (h : aclFields v = some (perms, scheme, id)) :
    ∃ fields, v = .array fields ∧ zendHashFind fields "perms" = some perms ∧
      zendHashFind fields "scheme" = some scheme ∧ zendHashFind fields "id" = some id := by
  cases v with
  | array fields =>
    simp only [aclFields, Option.bind_eq_bind, Option.bind_eq_some_iff] at h
    obtain ⟨perms, hperms, scheme, hscheme, id, hid, hx⟩ := h
    cases hx
    exact ⟨fields, rfl, hperms, hscheme, hid⟩
  | _ => cases h

/-- What is in the slots after the conversions. -/
theorem find_converted {fields : PhpArray} {perms scheme id : PhpValue}
    (hperms : zendHashFind fields "perms" = some perms)
    (hscheme : zendHashFind fields "scheme" = some scheme)
    (hid : zendHashFind fields "id" = some id) :
    ∃ fields', convertFields (perms, scheme, id) (.array fields) = .array fields' ∧
      zendHashFind fields' "perms" = some (.long (convertToLong perms)) ∧
      zendHashFind fields' "scheme" = some (.string (convertToString scheme)) ∧
      zendHashFind fields' "id" = some (.string (convertToString id)) := by
  have hscheme' : zendHashFind (replaceSlot fields "perms" (.long (convertToLong perms))) "scheme" =
      some scheme := by
    rw [zendHashFind_replaceSlot_of_ne (by decide), hscheme]
  refine ⟨_, rfl, ?_, ?_, ?_⟩
  · rw [zendHashFind_replaceSlot_of_ne (by decide), zendHashFind_replaceSlot_of_ne (by decide),
      zendHashFind_replaceSlot hperms]
  · rw [zendHashFind_replaceSlot_of_ne (by decide), zendHashFind_replaceSlot hscheme']
  · refine zendHashFind_replaceSlot (w := id) ?_
    rw [zendHashFind_replaceSlot_of_ne (by decide), zendHashFind_replaceSlot_of_ne (by decide), hid]

/-- Conversions to the types that the values have. -/
theorem convertFields_typed {fields : PhpArray} {n : Int64} {scheme id : CString}
    (hnodup : (fields.map Prod.fst).Nodup) (hperms : zendHashFind fields "perms" = some (.long n))
    (hscheme : zendHashFind fields "scheme" = some (.string scheme))
    (hid : zendHashFind fields "id" = some (.string id)) :
    convertFields (.long n, .string scheme, .string id) (.array fields) = .array fields := by
  simp only [convertFields, convertToLong, convertToString]
  rw [replaceSlot_self hnodup hperms, replaceSlot_self hnodup hscheme, replaceSlot_self hnodup hid]

/-- The conversion leaves an entry as it is exactly when it is typed. -/
theorem convertEntry_eq_self_iff {v : PhpValue}
    (hdistinct : ∀ fields, v = .array fields → (fields.map Prod.fst).Nodup) :
    convertEntry v = v ↔ entryTyped v = true := by
  unfold convertEntry entryTyped
  cases hx : aclFields v with
  | none => simp
  | some x =>
    obtain ⟨perms, scheme, id⟩ := x
    obtain ⟨fields, rfl, hperms, hscheme, hid⟩ := exists_fields hx
    simp only [Bool.and_eq_true]
    constructor
    · intro hsame
      obtain ⟨fields', hconverted, hperms', hscheme', hid'⟩ := find_converted hperms hscheme hid
      obtain rfl : fields' = fields := PhpValue.array.inj (hconverted.symm.trans hsame)
      rw [hperms, Option.some.injEq] at hperms'
      rw [hscheme, Option.some.injEq] at hscheme'
      rw [hid, Option.some.injEq] at hid'
      rw [hperms', hscheme', hid']
      exact ⟨⟨rfl, rfl⟩, rfl⟩
    · rintro ⟨⟨hlong, hstring⟩, hstring'⟩
      cases perms with
      | long n =>
        cases scheme with
        | string scheme =>
          cases id with
          | string id => exact convertFields_typed (hdistinct fields rfl) hperms hscheme hid
          | _ => cases hstring'
        | _ => cases hstring
      | _ => cases hlong

/-! ### The loop -/

theorem parseEntries_fst (data : Ptr) (acl : PhpArray) (i : ℕ) (h : CHeap) :
    (parseEntries data acl i h).1 = acl.map fun e => (e.1, convertEntry e.2) := by
  induction acl generalizing i h with
  | nil => rfl
  | cons e acl ih =>
    obtain ⟨key, v⟩ := e
    cases hx : aclFields v with
    | none => simp only [parseEntries, hx, ih, List.map_cons, convertEntry]
    | some x => simp only [parseEntries, hx, ih, List.map_cons, convertEntry]

theorem phpParseAclList_fst (acl : PhpArray) (aclv : AclVector) (h : CHeap) :
    (phpParseAclList (some acl) aclv h).1 = some (acl.map fun e => (e.1, convertEntry e.2)) := by
  cases acl with
  | nil => rfl
  | cons e acl =>
    have hloop := parseEntries_fst h.next (e :: acl) 0 (h.callocAcls (e :: acl).length)
    exact congrArg some hloop

/-- `php_parse_acl_list` leaves an array as it is exactly when it converts nothing. -/
theorem parse_unchanged_iff (x : AclArgument) (aclv : AclVector) (h : CHeap) :
    (phpParseAclList (some x.slots) aclv h).1 = some x.slots ↔ x.Typed := by
  have hmap : (x.slots.map fun e => (e.1, convertEntry e.2)) = x.slots ↔
      ∀ e ∈ x.slots, (e.1, convertEntry e.2) = e := by
    conv_lhs =>
      rhs
      rw [← List.map_id x.slots]
    exact List.map_inj_left
  rw [phpParseAclList_fst, Option.some.injEq, hmap]
  refine forall₂_congr fun e he => ?_
  rw [← convertEntry_eq_self_iff (x.distinct e he), Prod.ext_iff]
  exact and_iff_right rfl

/-! ### The methods -/

variable {o : ZkObject} {path : CString} {h : CHeap}

/-- What `setAcl` leaves of its argument. -/
theorem setAcl_argument {acl : PhpArray} {version : Int64} {aclv : AclVector} {status : Status}
    {r : Returned} (hzk : o.zk ≠ none) (hr : setAcl o path version acl aclv status h = some r) :
    r.argument = (phpParseAclList (some acl) aclv h).1 := by
  obtain ⟨zk, hzk⟩ := Option.ne_none_iff_exists'.mp hzk
  simp only [setAcl, hzk] at hr
  split at hr
  · cases hr
  · obtain rfl := Option.some.inj hr
    rfl

theorem create_argument {acl : PhpArray} {value : Option Bytes} {flags : Int64} {reply : Reply}
    (hzk : o.zk ≠ none) : (create o path value (some acl) flags reply h).argument =
      (phpParseAclList (some acl) { count := 0, data := none } h).1 := by
  obtain ⟨zk, hzk⟩ := Option.ne_none_iff_exists'.mp hzk
  simp only [create, hzk]

/-- `setAcl` returns, for an array with a slot. -/
theorem exists_setAcl {acl : PhpArray} (hne : acl ≠ []) (version : Int64) (aclv : AclVector)
    (status : Status) : ∃ r, setAcl o path version acl aclv status h = some r := by
  cases hzk : o.zk with
  | none => exact ⟨notConnected acl h, by simp only [setAcl, hzk]⟩
  | some zk =>
    obtain ⟨argument, n, h', hparse, hp⟩ := phpParseAclList_spec aclv h hne
    obtain ⟨h'', hdestroy, -⟩ := hp.destroyed
    exact ⟨_, by simp only [setAcl, hzk, hparse, hdestroy]; rfl⟩

theorem setAcl_unchanged_iff (x : AclArgument) (version : Int64) (aclv : AclVector)
    (status : Status) :
    (∀ r, setAcl o path version x.slots aclv status h = some r → r.argument = some x.slots) ↔
      o.zk = none ∨ x.Typed := by
  by_cases hzk : o.zk = none
  · refine iff_of_true (fun r hr => ?_) (.inl hzk)
    simp only [setAcl, hzk] at hr
    obtain rfl := Option.some.inj hr
    rfl
  rw [or_iff_right hzk]
  constructor
  · intro hsame
    by_cases hne : x.slots = []
    · intro e he
      simp [hne] at he
    · obtain ⟨r, hr⟩ := exists_setAcl hne version aclv status
      rw [← parse_unchanged_iff x aclv h, ← setAcl_argument hzk hr]
      exact hsame r hr
  · intro htyped r hr
    rw [setAcl_argument hzk hr, parse_unchanged_iff]
    exact htyped

theorem create_unchanged_iff (x : AclArgument) (value : Option Bytes) (flags : Int64)
    (reply : Reply) :
    (create o path value (some x.slots) flags reply h).argument = some x.slots ↔
      o.zk = none ∨ x.Typed := by
  by_cases hzk : o.zk = none
  · refine iff_of_true ?_ (.inl hzk)
    simp only [create, hzk]
    rfl
  · rw [or_iff_right hzk, create_argument hzk, parse_unchanged_iff]

/-- **When the caller finds its array as it was**: exactly when each of its entries is skipped or
has an integer and two strings, or the method has stopped before it reads the array. What the server
answers does not matter. -/
theorem acl_unchanged_iff (x : AclArgument) (o : ZkObject) (path : CString) (h : CHeap) :
    (∀ aclv, (phpParseAclList (some x.slots) aclv h).1 = some x.slots ↔ x.Typed) ∧
    (∀ version aclv status,
      (∀ r, setAcl o path version x.slots aclv status h = some r → r.argument = some x.slots) ↔
        o.zk = none ∨ x.Typed) ∧
    ∀ value flags reply,
      (create o path value (some x.slots) flags reply h).argument = some x.slots ↔
        o.zk = none ∨ x.Typed :=
  ⟨fun aclv => parse_unchanged_iff x aclv h, setAcl_unchanged_iff x, create_unchanged_iff x⟩

/-- An entry whose `perms` is the string `31`. -/
def permsAsString : AclArgument where
  slots := [(.index 0, .array [(.name "perms".toList, .string "31".toList),
    (.name "scheme".toList, .string "world".toList),
    (.name "id".toList, .string "anyone".toList)])]
  distinct := by
    simp only [List.mem_singleton]
    rintro _ rfl fields heq
    obtain rfl := PhpValue.array.inj heq
    decide

theorem not_typed_permsAsString {o : ZkObject} (hzk : o.zk ≠ none) :
    ¬ (o.zk = none ∨ permsAsString.Typed) := by
  rintro (hnone | htyped)
  · exact hzk hnone
  · exact absurd (htyped _ List.mem_cons_self) (by decide)

/-- Neither method leaves it as it is. -/
theorem acl_changed :
    (¬ ∀ (x : AclArgument) o path version aclv status h r,
      setAcl o path version x.slots aclv status h = some r → r.argument = some x.slots) ∧
    ¬ ∀ (x : AclArgument) o path value flags reply h,
      (create o path value (some x.slots) flags reply h).argument = some x.slots := by
  have hzk : connectedObject.zk ≠ none := by decide
  refine ⟨fun hsame => ?_, fun hsame => ?_⟩
  · have hset := hsame permsAsString connectedObject "/node".toList (-1) ⟨0, none⟩ ZOK {}
    rw [setAcl_unchanged_iff] at hset
    exact not_typed_permsAsString hzk hset
  · have hcreate := hsame permsAsString connectedObject "/node".toList none 0 { rc := ZOK } {}
    rw [create_unchanged_iff] at hcreate
    exact not_typed_permsAsString hzk hcreate

end PhpZookeeper.AclList
