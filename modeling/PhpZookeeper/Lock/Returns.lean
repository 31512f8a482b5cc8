import PhpZookeeper.Lock.Call
import PhpZookeeper.Lock.Effects
import PhpZookeeper.Server.Tree
import PhpZookeeper.Theory.Ends

/-!
# `zkr_lock_lock` comes back

Every loop of `zkr_lock_lock` is bounded, but its way out when the predecessor cannot be watched
calls `zkr_lock_unlock`, which waits for the mutex that the call itself holds. `comesBack_iff` says
for which replies the call returns.
-/

namespace PhpZookeeper

open Theory Prog Status

/-! ### Replies -/

/-- A buffer longer than the path asked for holds the name of a node that has been made, which
begins with that path. Of the replies to other requests nothing is said, nor of the status. -/
def NamesCreated (ρ : Talk → Req → Reply) : Prop :=
  ∀ L p value acl flags len, p.length < len → (ρ L (.zooCreate p value acl flags len)).rc = ZOK →
    p <+: (ρ L (.zooCreate p value acl flags len)).realPath

/-- A listing in which there is no first name, or that cannot be sorted: without a name, or of
several names of which one has no `-`. -/
def BadListing (names : List CString) : Prop :=
  names = [] ∨ 2 ≤ names.length ∧ ∃ x ∈ names, '-' ∉ x

/-- The last reply is one after which `zkr_lock_lock` does not come back: the `exists` of a
predecessor that does not succeed, or a listing without a place for the client. -/
def Talk.EndsBadly (L : Talk) : Prop :=
  ∃ r a, L.getLast? = some (r, a) ∧ match r with
    | .zooWexists _ => a.rc ≠ ZOK
    | .zooGetChildren _ => a.rc = ZOK ∧ BadListing a.strings
    | _ => False

theorem afterLast_eq_none_iff {x : CString} : afterLast '-' x = none ↔ '-' ∉ x := by
  refine ⟨fun hnone hmem => ?_, afterLast_eq_none⟩
  obtain ⟨u, t, rfl, ht⟩ := exists_append_of_mem hmem
  rw [afterLast_append ht] at hnone
  cases hnone

/-- The listings from which `zkr_lock_operation` cannot go on. -/
theorem badListing_iff (names : List CString) :
    BadListing names ↔ ∀ ownerId rest, sortChildren names ≠ some (ownerId :: rest) := by
  unfold sortChildren BadListing
  by_cases hbad : 2 ≤ names.length ∧ ∃ x ∈ names, '-' ∉ x
  · have hcond : (2 ≤ names.length && names.any fun x => (afterLast '-' x).isNone) = true := by
      simpa [afterLast_eq_none_iff] using hbad
    rw [if_pos hcond]
    exact iff_of_true (.inr hbad) (by simp)
  · have hcond : (2 ≤ names.length && names.any fun x => (afterLast '-' x).isNone) = false := by
      rw [← Bool.not_eq_true]
      simpa [afterLast_eq_none_iff] using hbad
    rw [hcond, if_neg (by decide), or_iff_left hbad]
    constructor
    · rintro rfl ownerId rest
      simp
    · intro hno
      by_contra hne
      have hlen := List.length_insertionSort (fun a b => vstrcmpLe a b = true) names
      cases hsorted : names.insertionSort fun a b => vstrcmpLe a b = true with
      | nil =>
        rw [hsorted] at hlen
        exact hne (List.eq_nil_of_length_eq_zero hlen.symm)
      | cons x rest => exact hno x rest (congrArg some hsorted)

theorem endsBadly_append {L : Talk} {r : Req} {a : Reply} :
    Talk.EndsBadly (L ++ [(r, a)]) ↔ match r with
      | .zooWexists _ => a.rc ≠ ZOK
      | .zooGetChildren _ => a.rc = ZOK ∧ BadListing a.strings
      | _ => False := by
  simp [Talk.EndsBadly]

/-- The service names the nodes it makes. -/
theorem Answers.prefix_realPath {sid : Sid} {p : CString} {value : Option Bytes}
    {acl : Option Acl} {flags : CreateFlags} {len : ℕ} {t t' : Nodes} {a : Reply}
    (h : Answers sid (.zooCreate p value acl flags len) t a t') (hlen : p.length < len)
    (hrc : a.rc = ZOK) : p <+: (a.received (.zooCreate p value acl flags len)).realPath := by
  rcases h.zooCreate with ⟨d, n, q, k, -, hreal, -, -, hq, -⟩ | ⟨-, hne, -⟩
  · have hfits : p.length ≤ len - 1 := by omega
    have hpre : p <+: q := by
      rw [hq]
      split_ifs
      · exact List.prefix_append _ _
      · exact List.prefix_rfl
    show p <+: a.realPath.take (len - 1)
    rw [hreal]
    exact List.prefix_take_iff.mpr ⟨hpre, hfits⟩
  · exact absurd hrc hne

/-- `getName` finds a name in the buffer of `zkr_lock_operation`. -/
theorem getName_isSome {ρ : Talk → Req → Reply} (hρ : NamesCreated ρ) {session : Sid}
    {path : CString} {acl : Option Acl} {flags : CreateFlags} {L : Talk} {a : Reply}
    (ha : ρ L (.zooCreate (childOf path (lockPrefix session)) none acl flags (path.length + 41)) =
      a) (hrc : a.rc = ZOK) : (getName a.realPath).isSome = true := by
  have hshort : (childOf path (lockPrefix session)).length < path.length + 41 := by
    have hprefix : (lockPrefix session).length ≤ 29 := List.length_take_le _ _
    simp only [childOf, List.length_append, List.length_cons]
    omega
  have hpre := hρ L _ none acl flags _ hshort (ha ▸ hrc)
  rw [ha] at hpre
  have hslash : '/' ∈ a.realPath := hpre.subset (by simp [childOf])
  obtain ⟨u, t, hreal, ht⟩ := exists_append_of_mem hslash
  rw [getName, hreal, afterLast_append ht]
  rfl

/-! ### How the functions end -/

section Ends

variable {th : Thread} {session : Sid} {ρ : Talk → Req → Reply}

/-- Within `K` requests `p` ends, with `Q`, or stuck after a bad reply. -/
abbrev LockEnds (th : Thread) (ρ : Talk → Req → Reply) {α : Type} (p : Code α) (s : LockCall)
    (K : ℕ) (Q : α → LockCall → Prop) : Prop :=
  EndsWithin (callSem th (replyOf ρ)) (fun s => s.talk.length) (fun s => s.talk.EndsBadly) p s K Q

/-- The mutex is held, the lock directory is `path`, and the last reply has been a good one. -/
structure Held (path : Option CString) (s : LockCall) : Prop where
  pmutex : s.memory.lock.pmutex ≠ none
  path_eq : s.memory.lock.path = path
  good : ¬ s.talk.EndsBadly

/-- The reply to a request with retries is the last one; without a path there is none. -/
def Replied (path : Option CString) (r : CString → Req) (s : LockCall) (a : Reply)
    (s' : LockCall) : Prop :=
  s'.memory = s.memory ∧ (path = none ∧ a = { rc := ZBADARGUMENTS } ∧ s' = s ∨
    ∃ p L, path = some p ∧ s'.talk = L ++ [(r p, a)])

/-- A call that gives up waits for itself. -/
theorem lockEnds_giveUp {s : LockCall} {K : ℕ} {Q : Status → LockCall → Prop}
    (hheld : s.memory.lock.pmutex ≠ none) (hbad : s.talk.EndsBadly) :
    LockEnds th ρ giveUp s K Q :=
  .stuck (fun _ _ h => hheld h.1) hbad

/-- A listing without a place for the client is followed by a `fault`. -/
theorem lockEnds_fault {α : Type} {s : LockCall} {K : ℕ} {Q : α → LockCall → Prop}
    (hbad : s.talk.EndsBadly) : LockEnds th ρ (fault : Code α) s K Q :=
  .stuck (fun _ _ h => h) hbad

/-- The completion is called, or there is none. -/
theorem lockEnds_callCompletion (rc : ℕ) {path : Option CString} {s : LockCall}
    (h : Held path s) : LockEnds th ρ (callCompletion rc) s 0 fun _ s' => Held path s' := by
  have hload : callSem th (replyOf ρ) .load s s.memory s := ⟨rfl, rfl⟩
  refine .free hload rfl ?_
  simp only [ret_bind]
  split_ifs
  · have hcompletion : callSem th (replyOf ρ) (.completion rc) s ()
      { s with completed := s.completed ++ [rc] } := rfl
    exact .free hcompletion rfl (.ret ⟨h.pmutex, h.path_eq, h.good⟩)
  · exact .ret h

theorem lockEnds_zooPath (path : Option CString) (r : CString → Req) (s : LockCall) :
    LockEnds th ρ (zooPath path r) s 1 (Replied path r s) := by
  cases path with
  | none => exact .ret ⟨rfl, .inl ⟨rfl, rfl, rfl⟩⟩
  | some p =>
    have hsem : callSem th (replyOf ρ) (.zoo (r p)) s (ρ s.talk (r p))
        (s.say (r p) (ρ s.talk (r p))) := ⟨rfl, rfl⟩
    have hreplied : Replied (some p) r s (ρ s.talk (r p)) (s.say (r p) (ρ s.talk (r p))) :=
      ⟨rfl, .inr ⟨p, s.talk, rfl, rfl⟩⟩
    exact .op (c := 1) (K := 0) hsem (by simp [LockCall.say]) (.ret hreplied)

/-- A request with retries makes at most as many requests, and at least one. -/
theorem lockEnds_retryRequest (path : Option CString) (r : CString → Req) {n : ℕ} (hn : 0 < n)
    (s : LockCall) : LockEnds th ρ (retryRequest path r n) s n (Replied path r s) := by
  let I : Reply × ℕ → LockCall → Prop := fun x s' =>
    x = ({ rc := ZCONNECTIONLOSS }, 0) ∧ s' = s ∨ Replied path r s x.1 s'
  have hreplied : ∀ (x : Reply × ℕ) (s₁ : LockCall), x.1.rc = ZCONNECTIONLOSS → I x s₁ →
      ∀ a s₂, Replied path r s₁ a s₂ → Replied path r s a s₂ := by
    rintro x s₁ hlost (⟨-, rfl⟩ | ⟨hmemory, hlast⟩) a s₂ h
    · exact h
    · rcases hlast with ⟨-, hx, -⟩ | ⟨p, -, rfl, -⟩
      · rw [hx] at hlost
        cases hlost
      · rcases h.2 with ⟨hnone, -⟩ | hsome
        · cases hnone
        · exact ⟨h.1.trans hmemory, .inr hsome⟩
  refine ((EndsWithin.whileLoop (c := 1) (I := I) (fun x => n - x.2) (fun x hx => ?_)
    (fun x s₁ hx hI => ?_) (.inl ⟨rfl, rfl⟩)).bind fun x s' hx =>
      EndsWithin.ret (K := 0) (Q := Replied path r s) ?_).mono (by simp) fun _ _ h => h
  · have hlt : x.2 < n := by simpa using (Bool.and_eq_true_iff.mp hx).2
    omega
  · have hlost : x.1.rc = ZCONNECTIONLOSS := by simpa using (Bool.and_eq_true_iff.mp hx).1
    have hlt : x.2 < n := by simpa using (Bool.and_eq_true_iff.mp hx).2
    refine ((lockEnds_zooPath path r s₁).bind fun a s₂ ha => ?_).mono
      (Nat.add_zero 1).le fun _ _ h => h
    have ha' := hreplied x s₁ hlost hI a s₂ ha
    split_ifs with hrc
    · have hsleep : callSem th (replyOf ρ) .nanosleep s₂ () s₂ := rfl
      refine .free (K := 0) hsleep rfl (.ret ⟨.inr ha', fun _ => ?_⟩)
      simp only
      omega
    · refine .ret (K := 0) ⟨.inr ha', fun hcond => ?_⟩
      simp [hrc] at hcond
  · obtain ⟨⟨rfl, -⟩ | h, hcond⟩ := hx
    · simp [hn.ne'] at hcond
    · exact h

/-- The client's place is found, and its predecessor is watched; or the call gives up. -/
theorem lockEnds_takePlace {path ownerId id : CString} {sorted : List CString} {s : LockCall}
    (h : Held (some path) s) (hid : s.memory.lock.id = some id) :
    LockEnds th ρ (takePlace sorted ownerId) s 3 fun _ s' => Held (some path) s' := by
  have hload : callSem th (replyOf ρ) .load s s.memory s := ⟨rfl, rfl⟩
  refine .free hload rfl ?_
  simp only [ret_bind, hid]
  cases childFloor sorted id with
  | some x =>
    simp only [h.path_eq]
    refine ((lockEnds_retryRequest (some (childOf path x)) .zooWexists (by decide) s).bind
      fun a s' ha => ?_).mono (Nat.add_zero 3).le fun _ _ h => h
    obtain ⟨hmemory, ⟨hnone, -⟩ | ⟨p, L, -, htalk⟩⟩ := ha
    · cases hnone
    have hheld : s'.memory.lock.pmutex ≠ none := hmemory ▸ h.pmutex
    split_ifs with hrc
    · refine lockEnds_giveUp hheld ?_
      rw [htalk, endsBadly_append]
      exact hrc
    · have hstore : callSem th (replyOf ρ) (.store (.lockIsOwner false)) s' ()
        { s' with memory := Assign.apply (.lockIsOwner false) s'.memory } := rfl
      refine .free hstore rfl (.ret ⟨hheld, by rw [← h.path_eq, ← hmemory]; rfl, ?_⟩)
      rw [htalk, endsBadly_append]
      exact hrc
  | none =>
    split_ifs
    · let m := Assign.apply (.lockIsOwner true) s.memory
      have hstore : callSem th (replyOf ρ) (.store (.lockIsOwner true)) s ()
        { s with memory := m } := rfl
      have hheld : Held (some path) { s with memory := m } := ⟨h.pmutex, h.path_eq, h.good⟩
      refine .free hstore rfl (((lockEnds_callCompletion 0 hheld).bind fun _ s' hs' => ?_).mono
        (Nat.zero_add 3).le fun _ _ h => h)
      exact .ret hs'
    · exact .ret h

/-- The client's place is found, and its predecessor is watched; or the last reply is a bad one. -/
theorem lockEnds_findPlace {path id : CString} {L : Talk} {a : Reply} {s : LockCall}
    (htalk : s.talk = L ++ [(.zooGetChildren path, a)]) (hrc : a.rc = ZOK)
    (hheld : s.memory.lock.pmutex ≠ none) (hpath : s.memory.lock.path = some path)
    (hid : s.memory.lock.id = some id) :
    LockEnds th ρ (findPlace a.strings) s 3 fun _ s' => Held (some path) s' := by
  unfold findPlace
  split
  · next ownerId rest hsort =>
    have hgood : ¬ s.talk.EndsBadly := by
      rw [htalk, endsBadly_append]
      exact fun hbad => (badListing_iff _).mp hbad.2 ownerId rest hsort
    let m := Assign.apply (.lockOwnerid (some ownerId)) s.memory
    have hstore : callSem th (replyOf ρ) (.store (.lockOwnerid (some ownerId))) s ()
      { s with memory := m } := rfl
    refine .free hstore rfl ?_
    exact lockEnds_takePlace ⟨hheld, hpath, hgood⟩ hid
  · next hno =>
    refine lockEnds_fault ?_
    rw [htalk, endsBadly_append]
    exact ⟨hrc, (badListing_iff _).mpr hno⟩

section Named

variable (hρ : NamesCreated ρ)
include hρ

/-- The client's node is looked up or made; when that succeeds its name is known. -/
theorem lockEnds_lookupOrCreate {path : CString} (vector : List CString) {s : LockCall}
    (hheld : s.memory.lock.pmutex ≠ none) (hpath : s.memory.lock.path = some path) :
    LockEnds th ρ (lookupOrCreate session (some path) vector) s 1 fun ret s' =>
      s'.memory.lock.pmutex ≠ none ∧ s'.memory.lock.path = some path ∧
        (ret ≠ ZOK → ¬ s'.talk.EndsBadly) ∧ (ret = ZOK → s'.memory.lock.id.isSome) := by
  let m := Assign.apply (.lockId (lookupnode vector (lockPrefix session))) s.memory
  let s₁ : LockCall := { s with memory := m }
  have hstore : callSem th (replyOf ρ) (.store (.lockId (lookupnode vector (lockPrefix session)))) s
    () s₁ := rfl
  have hload : callSem th (replyOf ρ) .load s₁ m s₁ := ⟨rfl, rfl⟩
  refine .free hstore rfl (.free hload rfl ?_)
  simp only [ret_bind]
  split_ifs with hid
  · exact .ret ⟨hheld, hpath, fun h => absurd rfl h, fun _ => hid⟩
  · rw [createNode_some]
    let r : Req := .zooCreate (childOf path (lockPrefix session)) none m.lock.acl
      { ephemeral := true, sequence := true } (path.length + 41)
    let a := ρ s₁.talk r
    let s₂ := s₁.say r a
    have hcreate : callSem th (replyOf ρ) (.zoo r) s₁ a s₂ := ⟨rfl, rfl⟩
    have hgood : ¬ s₂.talk.EndsBadly := by
      rw [show s₂.talk = s₁.talk ++ [(r, a)] from rfl, endsBadly_append]
      exact id
    refine .free hload rfl (.op (c := 1) (K := 0) hcreate (by simp [s₂, LockCall.say]) ?_)
    simp only [ret_bind]
    split_ifs with hrc
    · exact .ret ⟨hheld, hpath, fun _ => hgood, fun h => absurd h hrc⟩
    · have hname : (getName a.realPath).isSome = true := getName_isSome hρ rfl (not_not.mp hrc)
      have hstore : callSem th (replyOf ρ) (.store (.lockId (getName a.realPath))) s₂ ()
        { s₂ with memory := Assign.apply (.lockId (getName a.realPath)) s₂.memory } := rfl
      exact .free hstore rfl (.ret ⟨hheld, hpath, fun h => absurd rfl h, fun _ => hname⟩)

/-- One round makes at most ten requests, and is the last. -/
theorem lockEnds_zkrLockRound {path : Option CString} {s : LockCall} (h : Held path s) :
    LockEnds th ρ (zkrLockRound session path) s 10 fun x s' =>
      ∃ rc, x = .inr rc ∧ Held path s' := by
  refine (EndsWithin.bind (lockEnds_retryRequest path .zooGetChildren (by decide) s)
    fun a s₁ ha => ?_).mono (show 3 + 7 ≤ 10 by decide) fun _ _ h => h
  obtain ⟨hmemory, ⟨rfl, rfl, rfl⟩ | ⟨p, L, rfl, htalk⟩⟩ := ha
  · exact .ret ⟨_, rfl, h⟩
  have hheld : s₁.memory.lock.pmutex ≠ none := hmemory ▸ h.pmutex
  have hpath : s₁.memory.lock.path = some p := hmemory ▸ h.path_eq
  split_ifs with hrc
  · refine .ret ⟨_, rfl, hheld, hpath, ?_⟩
    rw [htalk, endsBadly_append]
    exact fun hbad => hrc hbad.1
  refine (EndsWithin.bind (lockEnds_lookupOrCreate hρ a.strings hheld hpath) fun ret s₂ hret =>
    ?_).mono (show 1 + 6 ≤ 7 by decide) fun _ _ h => h
  obtain ⟨hheld₂, hpath₂, hfailed, hfound⟩ := hret
  split_ifs with hok
  · exact .ret ⟨_, rfl, hheld₂, hpath₂, hfailed hok⟩
  obtain ⟨id, hid⟩ := Option.isSome_iff_exists.mp (hfound (not_not.mp hok))
  have hload : callSem th (replyOf ρ) .load s₂ s₂.memory s₂ := ⟨rfl, rfl⟩
  refine .free hload rfl ?_
  simp only [ret_bind, hid, Option.isSome_some, if_true]
  -- the second listing
  refine (EndsWithin.bind (lockEnds_retryRequest (some p) .zooGetChildren (by decide) s₂)
    fun b s₃ hb => ?_).mono (show 3 + 3 ≤ 6 by decide) fun _ _ h => h
  obtain ⟨hmemory₃, ⟨hnone, -⟩ | ⟨p', L₃, hp', htalk₃⟩⟩ := hb
  · cases hnone
  obtain rfl : p = p' := Option.some.inj hp'
  have hheld₃ : s₃.memory.lock.pmutex ≠ none := hmemory₃ ▸ hheld₂
  have hpath₃ : s₃.memory.lock.path = some p := hmemory₃ ▸ hpath₂
  split_ifs with hrc₃
  · refine .ret ⟨_, rfl, hheld₃, hpath₃, ?_⟩
    rw [htalk₃, endsBadly_append]
    exact fun hbad => hrc₃ hbad.1
  · refine (EndsWithin.bind (lockEnds_findPlace htalk₃ (not_not.mp hrc₃) hheld₃ hpath₃
      (by rw [hmemory₃, hid])) fun ret s' hs' => ?_).mono (Nat.add_zero 3).le fun _ _ h => h
    exact .ret ⟨_, rfl, hs'⟩

theorem lockEnds_zkrLockOperation {path : Option CString} {s : LockCall} (h : Held path s) :
    LockEnds th ρ (zkrLockOperation session) s 10 fun _ s' => Held path s' := by
  have hload : callSem th (replyOf ρ) .load s s.memory s := ⟨rfl, rfl⟩
  refine .free hload rfl (.loop_once ?_)
  rw [h.path_eq]
  exact lockEnds_zkrLockRound hρ h

theorem lockEnds_tryOperation {path : Option CString} {s : LockCall} (h : Held path s) :
    LockEnds th ρ (tryOperation session) s 40 fun _ s' => Held path s' := by
  refine EndsWithin.mono (K := 10 * (4 - 0) + 0) ?_ (by decide) fun _ _ h => h
  refine EndsWithin.bind (EndsWithin.whileLoop (I := fun _ s => Held path s)
    (fun x : Status × ℕ => 4 - x.2) (fun x hx => ?_) (fun x s₁ hx hI => ?_) h) fun x s' hx =>
      .ret hx.1
  · have hlt : x.2 < 4 := by simpa using (Bool.and_eq_true_iff.mp hx).2
    omega
  · have hlt : x.2 < 4 := by simpa using (Bool.and_eq_true_iff.mp hx).2
    refine (EndsWithin.bind (lockEnds_zkrLockOperation hρ hI) fun ret s₂ hs₂ => ?_).mono
      (Nat.add_zero 10).le fun _ _ h => h
    split_ifs with hret
    · have hsleep : callSem th (replyOf ρ) .nanosleep s₂ () s₂ := rfl
      refine .free hsleep rfl (.ret ⟨hs₂, fun _ => ?_⟩)
      simp only
      omega
    · refine .ret ⟨hs₂, fun hcond => ?_⟩
      simp [not_not.mp hret] at hcond

end Named

/-- A request that is neither an `exists` with a watch nor a listing. -/
theorem lockEnds_plain (path : Option CString) (r : CString → Req) {s : LockCall}
    (hr : ∀ p a, ¬ Talk.EndsBadly [(r p, a)]) (h : Held path s) :
    LockEnds th ρ (zooPath path r) s 1 fun _ s' => Held path s' := by
  refine (lockEnds_zooPath path r s).mono (Nat.le_refl 1) ?_
  rintro a s' ⟨hmemory, ⟨-, -, rfl⟩ | ⟨p, L, -, htalk⟩⟩
  · exact h
  · refine ⟨hmemory ▸ h.pmutex, hmemory ▸ h.path_eq, fun hbad => hr p a ?_⟩
    rw [htalk, endsBadly_append] at hbad
    rw [← List.nil_append [(r p, a)], endsBadly_append]
    exact hbad

theorem lockEnds_makeDirectory {path : Option CString} {s : LockCall} (h : Held path s) :
    LockEnds th ρ (makeDirectory path) s 5 fun _ s' => Held path s' := by
  have hexists : ∀ p a, ¬ Talk.EndsBadly [(.zooExists p, a)] := by simp [Talk.EndsBadly]
  have hcreate : ∀ acl p a, ¬ Talk.EndsBadly [(.zooCreate p none acl {} 0, a)] := by
    simp [Talk.EndsBadly]
  refine ((lockEnds_plain path .zooExists hexists h).bind fun a s₁ h₁ => ?_).mono
    (show 1 + 4 ≤ 5 by decide) fun _ _ h => h
  refine EndsWithin.mono (K := 1 * (4 - 0) + 0) ?_ (by decide) fun _ _ h => h
  refine EndsWithin.bind (EndsWithin.whileLoop (I := fun _ s => Held path s)
    (fun x : Status × ℕ => 4 - x.2) (fun x hx => ?_) (fun x s₁ hx hI => ?_) h₁) fun x s' hx =>
      .ret hx.1
  · have hlt : x.2 < 4 := by simpa using (Bool.and_eq_true_iff.mp hx).2
    omega
  · have hlt : x.2 < 4 := by simpa using (Bool.and_eq_true_iff.mp hx).2
    have hretry : LockEnds th ρ (retryDirectory path x.1) s₁ 1 fun _ s' => Held path s' := by
      unfold retryDirectory
      split_ifs
      · exact lockEnds_plain path _ hexists hI
      · have hload : callSem th (replyOf ρ) .load s₁ s₁.memory s₁ := ⟨rfl, rfl⟩
        exact .free hload rfl (lockEnds_plain path _ (hcreate _) hI)
    refine (hretry.bind fun ret s₂ hs₂ => ?_).mono (Nat.add_zero 1).le fun _ _ h => h
    have hsleep : callSem th (replyOf ρ) .nanosleep s₂ () s₂ := rfl
    refine .free hsleep rfl (.ret ⟨hs₂, fun _ => ?_⟩)
    simp only
    omega

/-- **How `zkr_lock_lock` ends**: within 45 requests, with the mutex released and after a good
reply, or stuck after a bad one. -/
theorem lockEnds_zkrLockLock (hρ : NamesCreated ρ) {s : LockCall}
    (hfree : s.memory.lock.pmutex = none)
    (hgood : ¬ s.talk.EndsBadly) :
    LockEnds th ρ (zkrLockLock session) s 45 fun _ s' =>
      s'.memory.lock.pmutex = none ∧ ¬ s'.talk.EndsBadly := by
  let s₁ : LockCall := { s with memory := Op.effect th .pthreadMutexLock s.memory }
  have hlock : callSem th (replyOf ρ) .pthreadMutexLock s () s₁ := ⟨hfree, rfl⟩
  have hload : callSem th (replyOf ρ) .load s₁ s₁.memory s₁ := ⟨rfl, rfl⟩
  have hheld : Held s₁.memory.lock.path s₁ := ⟨nofun, rfl, hgood⟩
  refine .free hlock rfl (.free hload rfl ?_)
  refine ((lockEnds_makeDirectory hheld).bind fun _ s₂ h₂ => ?_).mono
    (show 5 + 40 ≤ 45 by decide) fun _ _ h => h
  refine ((lockEnds_tryOperation hρ h₂).bind fun _ s₃ h₃ => ?_).mono
    (Nat.add_zero 40).le fun _ _ h => h
  let s₄ : LockCall := { s₃ with memory := Op.effect th .pthreadMutexUnlock s₃.memory }
  have hunlock : callSem th (replyOf ρ) .pthreadMutexUnlock s₃ () s₄ := rfl
  have hload₄ : callSem th (replyOf ρ) .load s₄ s₄.memory s₄ := ⟨rfl, rfl⟩
  exact .free hunlock rfl (.free hload₄ rfl (.ret ⟨rfl, h₃.good⟩))

end Ends

/-! ### When the call comes back -/

/-- `zkr_lock_lock` returns within 45 requests, has never waited for the mutex that it holds, and
has released it. -/
def ComesBack (th : Thread) (session : Sid) (ρ : Talk → Req → Reply) (m : PhpZookeeperSession) :
    Prop :=
  ∃ a s', Returns (callSem th (replyOf ρ)) (zkrLockLock session) { memory := m } a s' ∧
    s'.talk.length ≤ 45 ∧ s'.memory.lock.pmutex = none

/-- The last reply of the call, whether it returns or not, is a good one. -/
def LastReplyGood (th : Thread) (session : Sid) (ρ : Talk → Req → Reply)
    (m : PhpZookeeperSession) : Prop :=
  ∀ x s', Ends (callSem th (replyOf ρ)) (zkrLockLock session) { memory := m } x s' →
    ¬ s'.talk.EndsBadly

theorem callSem_det {th : Thread} {ρ : Talk → Req → Reply} (o : Op) (s : LockCall) (r r' : o.Res)
    (s₁ s₂ : LockCall) (h₁ : callSem th (replyOf ρ) o s r s₁)
    (h₂ : callSem th (replyOf ρ) o s r' s₂) :
    r = r' ∧ s₁ = s₂ := by
  have heq := ((callPerform_iff o s r s₁).mpr h₁).symm.trans ((callPerform_iff o s r' s₂).mpr h₂)
  exact Prod.mk.inj (Option.some.inj heq)

/-- **When `zkr_lock_lock` comes back**: exactly when its last reply is neither the `exists` of a
predecessor that did not succeed, nor a listing without a place for the client. -/
theorem comesBack_iff {th : Thread} {session : Sid} {ρ : Talk → Req → Reply}
    {m : PhpZookeeperSession} (hρ : NamesCreated ρ) (hfree : m.lock.pmutex = none) :
    ComesBack th session ρ m ↔ LastReplyGood th session ρ m := by
  have hstart : ¬ Talk.EndsBadly [] := by simp [Talk.EndsBadly]
  have hlock : LockEnds th ρ (zkrLockLock session) { memory := m } 45 _ :=
    lockEnds_zkrLockLock hρ hfree hstart
  obtain ⟨x, s', hends, hcost, hx⟩ := hlock
  constructor
  · rintro ⟨a, s'', hreturns, -, -⟩ y t hy
    obtain ⟨rfl, rfl⟩ := (Ends.of_returns hreturns).det callSem_det hy
    obtain ⟨rfl, rfl⟩ := hends.det callSem_det hy
    exact hx.2
  · intro hgood
    cases x with
    | none => exact absurd hx (hgood none s' hends)
    | some a => exact ⟨a, s', hends.returns, by simpa using hcost, hx.1⟩

/-- What a service answers to a worker whose node is behind that of the session 0, and the node of
the session 0 is there as long as `present` says. -/
def queueReply (present : Req → Bool) (r : Req) : Reply :=
  let own : TreeState := [(childOf "/l".toList (lockName 1 1), {}), ("/l".toList, {})]
  let tree := if present r then (childOf "/l".toList (lockName 0 0), {}) :: own else own
  (treeServer.serve {} 1 r tree).1.received r

theorem prefix_queueReply (present : Req → Bool) {p : CString} {value : Option Bytes}
    {acl : Option Acl} {flags : CreateFlags} {len : ℕ} (hlen : p.length < len)
    (hrc : (queueReply present (.zooCreate p value acl flags len)).rc = ZOK) :
    p <+: (queueReply present (.zooCreate p value acl flags len)).realPath := by
  simp only [queueReply, Reply.received_rc] at hrc ⊢
  exact (treeServer.documented {} 1 _ _).prefix_realPath hlen hrc

/-- The first request is not allowed, the connection is lost at the second one, and then the service
answers. -/
def waitingReply (L : Talk) (r : Req) : Reply :=
  match L.length with
  | 0 => { rc := ZNOAUTH }
  | 1 => { rc := ZCONNECTIONLOSS }
  | _ => queueReply (fun _ => true) r

/-- The last request has watched a node. -/
def Talk.endsWatching (L : Talk) : Bool :=
  match L.getLast? with
  | some (.zooWexists _, a) => a.rc = ZOK
  | _ => false

/-- A client behind another one watches its node, and comes back. -/
theorem comesBack_behind :
    let m : PhpZookeeperSession := { lock := { path := some "/l".toList } }
    ComesBack .main 1 waitingReply m ∧ LastReplyGood .main 1 waitingReply m ∧
      ∃ a s', Returns (callSem .main (replyOf waitingReply)) (zkrLockLock 1) { memory := m } a s' ∧
        s'.talk.watched = [childOf "/l".toList (lockName 0 0)] := by
  intro m
  have hρ : NamesCreated waitingReply := by
    intro L p value acl flags len hlen hrc
    unfold waitingReply at hrc ⊢
    split at hrc
    · cases hrc
    · cases hrc
    · exact prefix_queueReply _ hlen hrc
  have hrun : (execEnds (callPerform .main waitingReply) 60 (zkrLockLock 1) { memory := m }).any
      (fun x => x.1.isSome && x.2.talk.endsWatching &&
        x.2.talk.watched == [childOf "/l".toList (lockName 0 0)]) = true := by
    decide +kernel
  obtain ⟨⟨x, s'⟩, heval, hx⟩ := Option.any_eq_true _ _ |>.mp hrun
  simp only [Bool.and_eq_true, beq_iff_eq, Option.isSome_iff_exists] at hx
  obtain ⟨⟨⟨a, rfl⟩, hlast⟩, hwatched⟩ := hx
  have hends := ends_of_exec (fun o s r s' => callPerform_iff o s r s') heval
  have hgood : LastReplyGood .main 1 waitingReply m := by
    rintro y t hy ⟨r, b, htalk, hbad⟩
    obtain ⟨-, rfl⟩ := hends.det callSem_det hy
    rw [Talk.endsWatching, htalk] at hlast
    cases r <;> simp_all
  exact ⟨(comesBack_iff hρ rfl).mpr hgood, hgood, a, s', hends.returns, hwatched⟩

/-- The replies when the node of the session 0 is there while the directory is listed, and has gone
when it is to be watched. -/
def releasedReply (_ : Talk) (r : Req) : Reply :=
  queueReply (fun r => !(r matches .zooWexists _)) r

/-- A predecessor that releases the lock in between leaves the client waiting for itself. -/
theorem waits_for_itself :
    ¬ ∀ th session ρ m, NamesCreated ρ → m.lock.pmutex = none → ComesBack th session ρ m := by
  intro h
  let m : PhpZookeeperSession := { lock := { path := some "/l".toList } }
  have hρ : NamesCreated releasedReply := fun _ _ _ _ _ _ hlen hrc => prefix_queueReply _ hlen hrc
  obtain ⟨a, s', hreturns, -⟩ := h .main 1 releasedReply m hρ rfl
  have hstuck : (execEnds (callPerform .main releasedReply) 60 (zkrLockLock 1)
      { memory := m }).any (fun x => x.1.isNone) = true := by
    decide +kernel
  obtain ⟨⟨x, s''⟩, heval, hx⟩ := Option.any_eq_true _ _ |>.mp hstuck
  obtain rfl : x = none := by simpa using hx
  have hends := ends_of_exec (fun o s r s' => callPerform_iff o s r s') heval
  cases ((Ends.of_returns hreturns).det callSem_det hends).1

end PhpZookeeper
