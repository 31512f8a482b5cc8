import PhpZookeeper.Client.Acl
import PhpZookeeper.Theory.Effects
import PhpZookeeper.Theory.Rounding

/-!
# Whose node it is

The id of a session reaches PHP in two ways: `getClientId` returns it as an integer, with the
session's password as a C string, and the stat arrays have it as a `double` under `ephemeralOwner`,
as they have all numbers of 64 bits. `identityReported_iff` says when nothing is lost.
-/

namespace PhpZookeeper

open Theory Prog Status

/-! ### `Zookeeper::getClientId` -/

/-- `clientid_t`, and the memory that follows its 16 bytes of password. -/
structure ClientId where
  clientId : Int64
  passwd : Bytes
  length_passwd : passwd.length = 16
  after : Bytes

/-- What `strlen` and `estrndup` make of the bytes at an address, up to a NUL; `none` when there is
none in the memory. -/
def readCString (memory : Bytes) : Option Bytes :=
  if 0 ∈ memory then some (memory.takeWhile (· ≠ 0)) else none

/-- What `Zookeeper::getClientId` returns. -/
inductive ClientIdResult where
  | null
  /-- `add_next_index_long` and `add_next_index_string` -/
  | array (clientId : Int64) (passwd : Bytes)
  deriving DecidableEq, Repr

/-- `Zookeeper::getClientId`, when the client library has `cid` for the handle; `none` when memory
is read that is not there. -/
def getClientId (o : ZkObject) (cid : ClientId) : Option ClientIdResult :=
  match o.zk with
  | none => some .null
  | some _ => (readCString (cid.passwd ++ cid.after)).map (.array cid.clientId)

/-! ### Stat arrays -/

/-- The `double` that a number is converted to: the nearest with 53 significant bits. -/
def nearestDouble (n : Int64) : ℤ := roundEven 53 n.toInt

/-- The number that an entry is for PHP. -/
def StatValue.number : StatValue → ℤ
  | .double n => nearestDouble n
  | .long n => n.toInt

/-- The keys of an array and their numbers. -/
def numbers (a : List (String × StatValue)) : List (String × ℤ) := a.map fun e => (e.1, e.2.number)

/-- The replies when each node that is asked for belongs to the session `id`. -/
def OwnedReply (id : Int64) : (o : ExtOp) → o.Res → Prop
  | .zooWexists _ _ _, a | .zooSet2 _ _ _ _, a => a.rc = ZOK → a.stat.ephemeralOwner = id
  | .zooWget _ _ _ _, a => a.rc = ZOK → a.stat.ephemeralOwner = id
  | _, _ => True

/-- Anything may come of an operation, but for the owner of the nodes. -/
def ownedSem (id : Int64) (o : ExtOp) (_ : Unit) (r : o.Res) (_ : Unit) : Prop := OwnedReply id o r

/-- `Handed id a`: `exists`, `get`, `set` or `getAcl` hands out the array `a` for a node that
belongs to the session `id`. -/
inductive Handed (id : Int64) : List (String × StatValue) → Prop where
  | exists_ {object : Ptr} {path : CString} {fci : Option Callable} {v : MethodResult}
      {a : List (String × StatValue)} :
      Returns (ownedSem id) (Zookeeper.exists object path fci) () v () → v.value = .stat a →
      Handed id a
  | get {object : Ptr} {path : CString} {fci : Option Callable} {statInfo : Bool} {maxSize : Int64}
      {v : MethodResult} {a : List (String × StatValue)} :
      Returns (ownedSem id) (Zookeeper.get object path fci statInfo maxSize) () v () →
      v.statInfo = some a → Handed id a
  | set {object : Ptr} {path : CString} {value : Option PhpString} {version : Int64}
      {statInfo : Bool} {v : MethodResult} {a : List (String × StatValue)} :
      Returns (ownedSem id) (Zookeeper.set object path value version statInfo) () v () →
      v.statInfo = some a → Handed id a
  | getAcl {o : ZkObject} {status : Status} {acl : List AclEntry} {stat : FullStat}
      {r : AclList.GetAclResult} : stat.ephemeralOwner = id →
      AclList.getAcl o status acl stat = some r → Handed id r.statInfo

/-- The numbers of 32 bits of a record. -/
def FullStat.longs (s : FullStat) : List Int32 :=
  [s.version, s.cversion, s.aversion, s.dataLength, s.numChildren]

/-- The numbers of 64 bits of a record. -/
def FullStat.longLongs (s : FullStat) : List Int64 :=
  [s.czxid, s.mzxid, s.ctime, s.mtime, s.ephemeralOwner, s.pzxid]

/-- A client's identity is reported without loss: by `getClientId` of a connected object, by the
arrays for its nodes; and two records that differ have arrays that differ. -/
structure IdentityReported (zk : Ptr) (cbData : Option Ptr) (cid : ClientId) (s₁ s₂ : FullStat) :
    Prop where
  clientId : getClientId { zk := some zk, cbData := cbData } cid =
    some (.array cid.clientId cid.passwd)
  owner : ∀ a, Handed cid.clientId a → ("ephemeralOwner", cid.clientId.toInt) ∈ numbers a
  stats : s₁ ≠ s₂ → numbers (phpStatToArray s₁) ≠ numbers (phpStatToArray s₂)

variable {id : Int64} {a : List (String × StatValue)} {s s₁ s₂ : FullStat}

/-! ### The password -/

/-- The bytes before the first NUL. -/
theorem takeWhile_append_eq_iff {l l' : Bytes} (h : 0 ∈ l ++ l') :
    (l ++ l').takeWhile (· ≠ 0) = l ↔ 0 ∉ l ∧ l'.head? = some 0 := by
  have happend (hl : 0 ∉ l) : (l ++ l').takeWhile (· ≠ 0) = l ++ l'.takeWhile (· ≠ 0) := by
    refine List.takeWhile_append_of_pos fun b hb => ?_
    have hne : b ≠ 0 := fun heq => hl (heq ▸ hb)
    simpa using hne
  constructor
  · intro htake
    have hl : 0 ∉ l := fun hmem => by
      rw [← htake] at hmem
      simpa using List.mem_takeWhile_imp hmem
    rw [happend hl, List.append_right_eq_self] at htake
    refine ⟨hl, ?_⟩
    cases l' with
    | nil => exact absurd h (by simpa using hl)
    | cons b l' =>
      by_contra hb
      have hne : b ≠ 0 := fun heq => hb (by rw [heq]; rfl)
      simp [hne] at htake
  · rintro ⟨hl, hhead⟩
    obtain ⟨rest, rfl⟩ := List.head?_eq_some_iff.mp hhead
    rw [happend hl]
    simp

/-- The password is returned as it is exactly when it has no NUL and is followed by one. -/
theorem getClientId_eq_iff (zk : Ptr) (cbData : Option Ptr) (cid : ClientId) :
    getClientId { zk := some zk, cbData := cbData } cid = some (.array cid.clientId cid.passwd) ↔
      0 ∉ cid.passwd ∧ cid.after.head? = some 0 := by
  by_cases h : 0 ∈ cid.passwd ++ cid.after
  · rw [← takeWhile_append_eq_iff h]
    simp [getClientId, readCString, h]
  · have hread : readCString (cid.passwd ++ cid.after) = none := if_neg h
    simp only [getClientId, hread, Option.map_none, reduceCtorEq, false_iff, not_and]
    intro _ hhead
    obtain ⟨rest, hafter⟩ := List.head?_eq_some_iff.mp hhead
    exact h (by simp [hafter])

/-! ### The owner -/

/-- The array is made of the record of a node of the session. -/
def OwnedArray (id : Int64) (a : List (String × StatValue)) : Prop :=
  ∃ s : FullStat, s.ephemeralOwner = id ∧ a = phpStatToArray s

/-- A method hands out arrays for nodes of the session only. -/
def HandsOut (id : Int64) (v : MethodResult) : Prop :=
  (∀ a, v.value = .stat a → OwnedArray id a) ∧ ∀ a, v.statInfo = some a → OwnedArray id a

/-- The methods perform any operation, and get the replies for nodes of the session `id`. -/
abbrev Methods (id : Int64) (p : ExtCode α) (Q : α → Prop) : Prop :=
  Performs (fun _ => True) (OwnedReply id) p Q

theorem handsOut_of_plain {v : MethodResult} (hvalue : ∀ a, v.value ≠ .stat a)
    (hinfo : v.statInfo = none) : HandsOut id v :=
  ⟨fun a h => absurd h (hvalue a), fun a h => by simp [hinfo] at h⟩

/-- What `stat_info` is filled with. -/
theorem handsOut_fillStatInfo {value : Zval} (statInfo : Bool) (hvalue : ∀ a, value ≠ .stat a)
    (hs : s.ephemeralOwner = id) :
    HandsOut id { value := value, statInfo := fillStatInfo statInfo s } := by
  refine ⟨fun a h => absurd h (hvalue a), fun a h => ⟨s, hs, ?_⟩⟩
  cases statInfo with
  | false => cases h
  | true => exact (Option.some.inj h).symm

theorem methods_newCbData (fci : Option Callable) (oneshot : Bool) :
    Methods id (newCbData fci oneshot) fun _ => True := by
  cases fci with
  | none => exact .ret trivial
  | some f => exact .step trivial fun _ _ => .ret trivial

theorem methods_fetchObject {object : Ptr} {k : Ptr → ExtCode MethodResult}
    (hk : ∀ zk, Methods id (k zk) (HandsOut id)) :
    Methods id (fetchObject object k) (HandsOut id) := by
  refine .step trivial fun o _ => ?_
  cases o.zk with
  | none => exact .step trivial fun _ _ => .ret (handsOut_of_plain (by simp) rfl)
  | some zk => exact hk zk

/-- A warning, and `NULL` or `false`. -/
theorem methods_failed {cbData : Option Ptr} {rc : Status} {v : MethodResult}
    (hv : HandsOut id v) : Methods id (do
      extAct (.phpCbDataDestroy cbData)
      extAct (.warningStatus rc)
      return v) (HandsOut id) :=
  .step trivial fun _ _ => .step trivial fun _ _ => .ret hv

theorem methods_exists (object : Ptr) (path : CString) (fci : Option Callable) :
    Methods id (Zookeeper.exists object path fci) (HandsOut id) := by
  refine methods_fetchObject fun zk => (methods_newCbData fci true).bind fun cbData _ =>
    .step trivial fun a ha => ?_
  split_ifs with hfail hok
  · exact methods_failed (handsOut_of_plain (by simp) rfl)
  · refine .ret ⟨fun b hb => ⟨a.stat, ha hok, ?_⟩, by simp⟩
    exact (Zval.stat.inj hb).symm
  · exact .ret (handsOut_of_plain (by simp) rfl)

theorem methods_set (object : Ptr) (path : CString) (value : Option PhpString) (version : Int64)
    (statInfo : Bool) :
    Methods id (Zookeeper.set object path value version statInfo) (HandsOut id) := by
  refine methods_fetchObject fun zk => .step trivial fun a ha => ?_
  split_ifs with hfail
  · exact .step trivial fun _ _ => .ret (handsOut_of_plain (by simp) rfl)
  · exact .ret (handsOut_fillStatInfo statInfo (by simp) (ha (by simpa using hfail)))

theorem methods_getLength (zk : Ptr) (path : CString) (cbData : Option Ptr) (statInfo : Bool)
    (length : Int32) :
    Methods id (Zookeeper.getLength zk path cbData statInfo length) (HandsOut id) := by
  unfold Zookeeper.getLength
  split_ifs
  · exact .ret (handsOut_of_plain (by simp) rfl)
  · refine .step trivial fun _ _ => .step trivial fun a ha => .step trivial fun _ _ => ?_
    split_ifs with hfail
    · exact methods_failed (handsOut_of_plain (by simp) rfl)
    · exact methods_failed (handsOut_of_plain (by simp) rfl)
    · exact .ret (handsOut_fillStatInfo statInfo (by simp) (ha (by simpa using hfail)))
    · exact .ret (handsOut_fillStatInfo statInfo (by simp) (ha (by simpa using hfail)))

theorem methods_get (object : Ptr) (path : CString) (fci : Option Callable) (statInfo : Bool)
    (maxSize : Int64) :
    Methods id (Zookeeper.get object path fci statInfo maxSize) (HandsOut id) := by
  refine methods_fetchObject fun zk => (methods_newCbData fci true).bind fun cbData _ => ?_
  split_ifs
  · refine .step trivial fun a _ => ?_
    split_ifs
    · exact methods_failed (handsOut_of_plain (by simp) rfl)
    · exact methods_getLength ..
  · exact methods_getLength ..

/-- A method of `Methods` hands out arrays for nodes of the session. -/
theorem handsOut_of_returns {p : ExtCode MethodResult} {v : MethodResult}
    (hp : Methods id p (HandsOut id)) (h : Returns (ownedSem id) p () v ()) : HandsOut id v :=
  (hp.returns (I := fun _ => True) (fun _ _ _ _ _ _ hr => ⟨hr, trivial⟩) trivial h).1

/-- **Each array that is handed out is made of the record of a node of the session.** -/
theorem Handed.owned (h : Handed id a) : OwnedArray id a := by
  cases h with
  | exists_ h ha => exact (handsOut_of_returns (methods_exists ..) h).1 _ ha
  | get h ha => exact (handsOut_of_returns (methods_get ..) h).2 _ ha
  | set h ha => exact (handsOut_of_returns (methods_set ..) h).2 _ ha
  | @getAcl o status acl stat r hs hr =>
    refine ⟨stat, hs, ?_⟩
    cases hzk : o.zk with
    | none => simp [AclList.getAcl, hzk] at hr
    | some zk =>
      simp only [AclList.getAcl, hzk] at hr
      split_ifs at hr
      rw [← Option.some.inj hr]

theorem mem_numbers_iff (s : FullStat) (z : ℤ) :
    ("ephemeralOwner", z) ∈ numbers (phpStatToArray s) ↔ z = nearestDouble s.ephemeralOwner := by
  simp [numbers, phpStatToArray, StatValue.number]

/-- The arrays have the owner exactly when its `double` is the number itself. -/
theorem owner_reported_iff (id : Int64) :
    (∀ a, Handed id a → ("ephemeralOwner", id.toInt) ∈ numbers a) ↔
      nearestDouble id = id.toInt := by
  constructor
  · intro h
    have hacl : AclList.getAcl { zk := some 0 } ZOK [] { ephemeralOwner := id } = some
        { statInfo := phpStatToArray { ephemeralOwner := id }, aclInfo := [] } := rfl
    exact ((mem_numbers_iff _ _).mp (h _ (.getAcl rfl hacl))).symm
  · intro h a ha
    obtain ⟨s, hs, rfl⟩ := ha.owned
    rw [mem_numbers_iff, hs, h]

/-! ### Records -/

/-- Two arrays are the same when the records agree on the numbers of 32 bits and on the doubles. -/
theorem numbers_eq_iff (s₁ s₂ : FullStat) :
    numbers (phpStatToArray s₁) = numbers (phpStatToArray s₂) ↔
      s₁.longs = s₂.longs ∧ s₁.longLongs.map nearestDouble = s₂.longLongs.map nearestDouble := by
  simp only [numbers, phpStatToArray, StatValue.number, FullStat.longs, FullStat.longLongs,
    List.map_cons, List.map_nil, List.cons.injEq, Prod.mk.injEq, Int32.toInt_inj, true_and,
    and_true]
  tauto

/-- **When a client's identity is reported without loss**: exactly when the password has no NUL
and a NUL follows it, the session's id has at most 53 significant bits, and the two records are the
same or differ in a number of 32 bits or in one whose doubles differ. -/
theorem identityReported_iff (zk : Ptr) (cbData : Option Ptr) (cid : ClientId)
    (s₁ s₂ : FullStat) : IdentityReported zk cbData cid s₁ s₂ ↔
      (0 ∉ cid.passwd ∧ cid.after.head? = some 0) ∧ HasSig 53 cid.clientId.toInt.natAbs ∧
      (s₁ = s₂ ∨ s₁.longs ≠ s₂.longs ∨
        s₁.longLongs.map nearestDouble ≠ s₂.longLongs.map nearestDouble) := by
  have hsig : nearestDouble cid.clientId = cid.clientId.toInt ↔
      HasSig 53 cid.clientId.toInt.natAbs := roundEven_eq_self_iff (by decide)
  have hstats : (s₁ ≠ s₂ → numbers (phpStatToArray s₁) ≠ numbers (phpStatToArray s₂)) ↔
      s₁ = s₂ ∨ s₁.longs ≠ s₂.longs ∨
        s₁.longLongs.map nearestDouble ≠ s₂.longLongs.map nearestDouble := by
    rw [ne_eq, ne_eq, numbers_eq_iff, not_and_or, ← or_iff_not_imp_left]
  rw [← hsig, ← hstats, ← getClientId_eq_iff zk cbData cid, ← owner_reported_iff cid.clientId]
  exact ⟨fun h => ⟨h.clientId, h.owner, h.stats⟩, fun h => ⟨h.1, h.2.1, h.2.2⟩⟩

/-- A client with the id `id` whose password is the byte `b` sixteen times. -/
def clientWith (id : Int64) (b : UInt8) : ClientId where
  clientId := id
  passwd := List.replicate 16 b
  length_passwd := rfl
  after := [0]

/-- A password of zeros is returned as an empty string; 2⁵³ + 1 becomes 2⁵³ as the owner of a node,
and as the number of a transaction. -/
theorem identity_lost :
    ¬ IdentityReported 0 none (clientWith 0 0) {} {} ∧
    ¬ IdentityReported 0 none (clientWith 9007199254740993 1) {} {} ∧
    ¬ IdentityReported 0 none (clientWith 0 1) { czxid := 9007199254740992 }
      { czxid := 9007199254740993 } := by
  refine ⟨fun h => ?_, fun h => ?_, fun h => ?_⟩
  · exact absurd h.clientId (by decide)
  · exact absurd ((owner_reported_iff _).mp h.owner) (by decide +kernel)
  · exact h.stats (by decide) (by decide +kernel)

end PhpZookeeper
