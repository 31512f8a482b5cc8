import PhpZookeeper.Lock.Returns

/-!
# What listings the lock survives

`zkr_lock_operation` takes the first name of the sorted listing and the last that is less than its
own, whatever has been listed: without a name it reads outside the list, a name without `-` makes
`vstrcmp` read outside the name, and a predecessor that cannot be watched makes the call wait for
itself. `placeDefined_iff` says for which listings and replies the operation comes to an end.
-/

namespace PhpZookeeper

open Theory Prog Status

/-- After a listing of `names`, `zkr_lock_operation` finds its place and returns: it neither makes a
`fault` nor waits for the mutex that it holds. -/
def PlaceDefined (th : Thread) (ρ : Talk → Req → Reply) (names : List CString) (s : LockCall) :
    Prop :=
  ∃ rc s', Returns (callSem th (replyOf ρ)) (findPlace names) s rc s'

/-- Of `n` replies to the request `r`, the first that is no connection loss is `ZOK`. -/
def GetsThrough (ρ : Talk → Req → Reply) (r : Req) : ℕ → Talk → Prop
  | 0, _ => False
  | n + 1, L => (ρ L r).rc = ZOK ∨
      (ρ L r).rc = ZCONNECTIONLOSS ∧ GetsThrough ρ r n (L ++ [(r, ρ L r)])

/-- The predecessor that `child_floor` finds, if there is one, can be watched. -/
def CanWatch (ρ : Talk → Req → Reply) (path id : CString) (sorted : List CString) (L : Talk) :
    Prop :=
  ∀ x, childFloor sorted id = some x → GetsThrough ρ (.zooWexists (childOf path x)) 3 L

/-- The listing has a first name and can be sorted, and the predecessor in it can be watched. -/
def ListingServes (ρ : Talk → Req → Reply) (path id : CString) (names : List CString) (L : Talk) :
    Prop :=
  ¬ BadListing names ∧ ∀ sorted, sortChildren names = some sorted → CanWatch ρ path id sorted L

section Ends

variable {th : Thread} {ρ : Talk → Req → Reply}

/-- `p` ends: with a value, when `P`, and stuck when not. -/
abbrev EndsWhen (th : Thread) (ρ : Talk → Req → Reply) {α : Type} (p : Code α) (s : LockCall)
    (P : Prop) : Prop :=
  EndsWithin (callSem th (replyOf ρ)) (fun _ => 0) (fun _ => ¬ P) p s 0 fun _ _ => P

/-- A request that is made `n` times at most ends, and has succeeded when it has got through. -/
theorem endsWithin_retryRequest {p : CString} {r : CString → Req} {n : ℕ} {s : LockCall}
    {Bad : LockCall → Prop} :
    EndsWithin (callSem th (replyOf ρ)) (fun _ => 0) Bad (retryRequest (some p) r n) s 0
      fun a s' => s'.memory = s.memory ∧ (a.rc = ZOK ↔ GetsThrough ρ (r p) n s.talk) := by
  -- what is still to come decides while the connection is lost, and the last reply after that
  let I : Reply × ℕ → LockCall → Prop := fun x s' => s'.memory = s.memory ∧
    (GetsThrough ρ (r p) n s.talk ↔
      if x.1.rc = ZCONNECTIONLOSS then GetsThrough ρ (r p) (n - x.2) s'.talk else x.1.rc = ZOK)
  refine EndsWithin.bind_free (EndsWithin.whileLoop_free (I := I) (fun x => n - x.2)
    (fun x hx => ?_) (fun x s₁ hx hI => ?_) ⟨rfl, by simp⟩) fun x s' hx => .ret ?_
  · have hlt : x.2 < n := by simpa using (Bool.and_eq_true_iff.mp hx).2
    omega
  · have hlost : x.1.rc = ZCONNECTIONLOSS := by simpa using (Bool.and_eq_true_iff.mp hx).1
    have hlt : x.2 < n := by simpa using (Bool.and_eq_true_iff.mp hx).2
    obtain ⟨hmemory, hthrough⟩ := hI
    obtain ⟨m, hm⟩ : ∃ m, n - x.2 = m + 1 := ⟨n - x.2 - 1, by omega⟩
    rw [if_pos hlost, hm, GetsThrough] at hthrough
    have hsem : callSem th (replyOf ρ) (.zoo (r p)) s₁ (ρ s₁.talk (r p))
        (s₁.say (r p) (ρ s₁.talk (r p))) := ⟨rfl, rfl⟩
    refine .free hsem rfl ?_
    simp only [ret_bind]
    split_ifs with hrc
    · have hsleep : callSem th (replyOf ρ) .nanosleep (s₁.say (r p) (ρ s₁.talk (r p))) ()
        (s₁.say (r p) (ρ s₁.talk (r p))) := rfl
      refine .free hsleep rfl (.ret ⟨⟨hmemory, ?_⟩, fun _ => ?_⟩)
      · have hm' : n - (x.2 + 1) = m := by omega
        simp only [hthrough, hrc, if_true, hm', reduceCtorEq, false_or, true_and, LockCall.say]
      · simp only
        omega
    · refine .ret ⟨⟨hmemory, ?_⟩, fun hcond => ?_⟩
      · simp only [hthrough, hrc, if_false, false_and, or_false]
      · simp [hrc] at hcond
  · obtain ⟨⟨hmemory, hthrough⟩, hcond⟩ := hx
    refine ⟨hmemory, ?_⟩
    split_ifs at hthrough with hlost
    · have hlast : n - x.2 = 0 := by
        have : ¬ x.2 < n := by simpa [hlost] using hcond
        omega
      rw [hlast] at hthrough
      rw [hthrough, GetsThrough, hlost]
      simp
    · exact hthrough.symm

/-- The completion is called, or there is none. -/
theorem endsWhen_callCompletion (rc : ℕ) {s : LockCall} {P : Prop} (hP : P) :
    EndsWhen th ρ (do callCompletion rc; return ZOK) s P := by
  have hload : callSem th (replyOf ρ) .load s s.memory s := ⟨rfl, rfl⟩
  refine .free hload rfl ?_
  simp only [ret_bind]
  split_ifs
  · have hcompletion : callSem th (replyOf ρ) (.completion rc) s ()
      { s with completed := s.completed ++ [rc] } := rfl
    exact .free hcompletion rfl (.ret hP)
  · exact .ret hP

/-- The place in a sorted listing is found when the predecessor can be watched. -/
theorem endsWhen_takePlace {path ownerId id : CString} {sorted : List CString} {s : LockCall}
    (hheld : s.memory.lock.pmutex ≠ none) (hpath : s.memory.lock.path = some path)
    (hid : s.memory.lock.id = some id) :
    EndsWhen th ρ (takePlace sorted ownerId) s (CanWatch ρ path id sorted s.talk) := by
  have hload : callSem th (replyOf ρ) .load s s.memory s := ⟨rfl, rfl⟩
  refine .free hload rfl ?_
  simp only [ret_bind, hid]
  cases hfloor : childFloor sorted id with
  | some x =>
    have hwatch : CanWatch ρ path id sorted s.talk ↔
        GetsThrough ρ (.zooWexists (childOf path x)) 3 s.talk := by
      simp [CanWatch, hfloor]
    simp only [hpath, hwatch]
    refine EndsWithin.bind_free endsWithin_retryRequest fun a s' ha => ?_
    obtain ⟨hmemory, hrc⟩ := ha
    split_ifs with hok
    · -- `zkr_lock_unlock` waits for the mutex
      exact .stuck (fun _ _ h => hmemory ▸ hheld <| h.1) fun h => hok (hrc.mpr h)
    · have hstore : callSem th (replyOf ρ) (.store (.lockIsOwner false)) s' ()
        { s' with memory := Assign.apply (.lockIsOwner false) s'.memory } := rfl
      exact .free hstore rfl (.ret (hrc.mp (not_not.mp hok)))
  | none =>
    have hwatch : CanWatch ρ path id sorted s.talk := fun x hx => by simp [hfloor] at hx
    split_ifs
    · have hstore : callSem th (replyOf ρ) (.store (.lockIsOwner true)) s ()
        { s with memory := Assign.apply (.lockIsOwner true) s.memory } := rfl
      exact .free hstore rfl (endsWhen_callCompletion 0 hwatch)
    · exact .ret hwatch

/-- The place in a listing is found when the listing serves. -/
theorem endsWhen_findPlace {path id : CString} {names : List CString} {s : LockCall}
    (hheld : s.memory.lock.pmutex ≠ none) (hpath : s.memory.lock.path = some path)
    (hid : s.memory.lock.id = some id) :
    EndsWhen th ρ (findPlace names) s (ListingServes ρ path id names s.talk) := by
  unfold findPlace
  split
  · next ownerId rest hsort =>
    have hserves : ListingServes ρ path id names s.talk ↔
        CanWatch ρ path id (ownerId :: rest) s.talk := by
      rw [ListingServes, and_iff_right fun hbad => (badListing_iff _).mp hbad ownerId rest hsort,
        hsort]
      simp
    have hstore : callSem th (replyOf ρ) (.store (.lockOwnerid (some ownerId))) s ()
        { s with memory := Assign.apply (.lockOwnerid (some ownerId)) s.memory } := rfl
    rw [hserves]
    refine .free hstore rfl ?_
    exact endsWhen_takePlace hheld hpath hid
  · next hno =>
    exact .stuck (fun _ _ h => h) fun hserves => hserves.1 ((badListing_iff _).mpr hno)

/-- **When the lock survives a listing.** The operation that has listed `names` comes to an end
exactly when there is a name, no name of several is without `-`, and the predecessor, if there is
one, can be watched. -/
theorem placeDefined_iff {path id : CString} {names : List CString} {s : LockCall}
    (hheld : s.memory.lock.pmutex = some th) (hpath : s.memory.lock.path = some path)
    (hid : s.memory.lock.id = some id) :
    PlaceDefined th ρ names s ↔ ListingServes ρ path id names s.talk := by
  have hmutex : s.memory.lock.pmutex ≠ none := by rw [hheld]; exact nofun
  have hplace : EndsWhen th ρ (findPlace names) s (ListingServes ρ path id names s.talk) :=
    endsWhen_findPlace hmutex hpath hid
  obtain ⟨x, s', hends, -, hx⟩ := hplace
  constructor
  · rintro ⟨rc, s'', hreturns⟩
    obtain ⟨rfl, -⟩ := (Ends.of_returns hreturns).det callSem_det hends
    exact hx
  · intro hserves
    cases x with
    | none => exact absurd hserves hx
    | some rc => exact ⟨rc, s', hends.returns⟩

end Ends

/-- The client of the session 0 holds the mutex and has made its node in the directory `/l`. -/
def madeNode : LockCall where
  memory := { lock :=
    { path := some "/l".toList, id := some (lockName 0 0), pmutex := some .main } }

/-- The client of the session 1 holds the mutex and has made its node behind another one. -/
def queuedNode : LockCall where
  memory := { lock :=
    { path := some "/l".toList, id := some (lockName 1 1), pmutex := some .main } }

/-- The names are listed out of order, and the first request for the node in front is lost. -/
theorem placeDefined_queued :
    PlaceDefined .main
      (fun L _ => if L = [] then { rc := ZCONNECTIONLOSS } else { rc := ZOK })
      [lockName 1 1, lockName 0 0] queuedNode := by
  refine (placeDefined_iff (s := queuedNode) rfl rfl rfl).mpr ⟨?_, ?_⟩
  · rintro (hempty | ⟨-, x, hx, hdash⟩)
    · cases hempty
    · revert x
      decide
  · intro sorted hsort x hx
    have hsorted : sortChildren [lockName 1 1, lockName 0 0] =
        some [lockName 0 0, lockName 1 1] := by decide
    obtain rfl : [lockName 0 0, lockName 1 1] = sorted :=
      Option.some.inj (hsorted.symm.trans hsort)
    -- the second of the three attempts gets through
    exact .inr ⟨by simp [queuedNode], .inl (by simp)⟩

/-- A session with the key `k-lock/a` has left the node `a` in the lock directory of `k`. -/
theorem listing_faults :
    ¬ ∀ (ρ : Talk → Req → Reply) (names : List CString), names.Nodup → (∀ x ∈ names, '/' ∉ x) →
      PlaceDefined .main ρ names madeNode := by
  intro h
  have hdefined := h (fun _ _ => { rc := ZCONNECTIONLOSS }) [['a'], lockName 0 0] (by decide)
    (by decide)
  have hserves := (placeDefined_iff (s := madeNode) rfl rfl rfl).mp hdefined
  exact hserves.1 (.inr ⟨by decide, ['a'], by decide, by decide⟩)

end PhpZookeeper
