import PhpZookeeper.Lock.Effects

/-!
# Reasoning about the lock while others act

The rule for `zkr_lock_lock`, whatever is to be shown with it: `P` holds of the shared state
outside the critical section of `pmutex`, `H` inside, and `F x` between the listing in which the
name `x` comes first and the assignment of `x` to `ownerid`. What others do may depend on the
thread being about to assign `x`, so `F x` need only be kept there.

`CriticalRules` is enough for code that stays inside; `PlaceRules` is about one round of
`zkr_lock_operation`, and `RoundRules` about `zkr_lock_lock`, whatever a round is shown with.
`LockRules` gives all three.
-/

namespace PhpZookeeper

open Theory Prog Status

variable {S : Type}

/-- The operations `pre` keep `H`, in which others leave the thread alone. -/
structure CriticalRules (C : Contract Op.Res S) (pre : Op → Prop)
    (post : (o : Op) → o.Res → Prop) (H : S → Prop) : Prop where
  stableIn : ∀ o, C.Stable o H
  inside : ∀ o s r s', pre o → H s → C.sem o s r s' → post o r ∧ C.guar o s r s' ∧ H s'

/-- What is to be shown of the part of `zkr_lock_operation` that finds the client's place. -/
structure PlaceRules (C : Contract Op.Res S) (pre : Op → Prop) (post : (o : Op) → o.Res → Prop)
    (H : S → Prop) (F : CString → S → Prop) : Prop extends CriticalRules C pre post H where
  visit : VisitEffects pre post
  /-- A listing, and the name that comes first. -/
  first : ∀ p s a s' x rest, KnownPath post p → H s → C.sem (.zoo (.zooGetChildren p)) s a s' →
    a.rc = ZOK → sortChildren a.strings = some (x :: rest) → F x s'
  stableFirst : ∀ x, C.Stable (some (.store (.lockOwnerid (some x)))) (F x)
  setOwnerid : ∀ x s r s', H s → F x s → C.sem (.store (.lockOwnerid (some x))) s r s' →
    C.guar (.store (.lockOwnerid (some x))) s r s' ∧ H s'
  giveUp : Triple C H giveUp fun _ => H

/-- What is to be shown of `zkr_lock_lock`, when a round of `zkr_lock_operation` keeps `H`. -/
structure RoundRules (C : Contract Op.Res S) (session : Sid) (pre : Op → Prop)
    (post : (o : Op) → o.Res → Prop) (P H K : S → Prop) : Prop
    extends CriticalRules C pre post H where
  visit : VisitEffects pre post
  stable : ∀ o, C.Stable o P
  round : ∀ path : Option CString, (∀ p ∈ path, KnownPath post p) →
    Triple C H (zkrLockRound session path) fun _ => H
  lock : ∀ s r s', P s → C.sem .pthreadMutexLock s r s' → C.guar .pthreadMutexLock s r s' ∧ H s'
  unlock : ∀ s r s', H s → C.sem .pthreadMutexUnlock s r s' →
    C.guar .pthreadMutexUnlock s r s' ∧ P s'
  /-- The record that `zkr_lock_isowner` reads. -/
  isowner : ∀ s m s', P s → C.sem .load s m s' →
    C.guar .load s m s' ∧ P s' ∧ (m.lock.isowner = true → K s')

namespace CriticalRules

variable {C : Contract Op.Res S} {pre : Op → Prop} {post : (o : Op) → o.Res → Prop} {H : S → Prop}
  (h : CriticalRules C pre post H)
include h

/-- Code that only performs operations of the critical section. -/
theorem triple {α : Type} {p : Code α} {Q : α → Prop} (hp : Performs pre post p Q) :
    Triple C H p fun a s => Q a ∧ H s :=
  hp.triple h.stableIn h.inside

/-- One operation of the critical section, and what follows it. -/
theorem step {α : Type} {o : Op} {f : o.Res → Code α} {Q : α → S → Prop} (ho : pre o)
    (hf : ∀ r, post o r → Triple C H (f r) Q) : Triple C H ((act o).bind f) Q := by
  refine .step (fun r s => post o r ∧ H s) (fun _ hs => hs) (h.stableIn _)
    (fun s r s' hs hsem => ?_)
    fun r => ?_
  · obtain ⟨hpost, hg, hs'⟩ := h.inside o s r s' ho hs hsem
    exact ⟨hg, hpost, hs'⟩
  · by_cases hr : post o r
    · exact (hf r hr).pre fun _ hs => hs.2
    · exact Triple.of_false fun _ hs => hr hs.1

theorem undefined (he : BaseEffects pre) {α : Type} :
    Triple C H (PhpZookeeper.fault : Code α) fun _ => H :=
  (h.triple (he.undefined (Q := fun _ => True))).post fun _ _ hs => hs.2

/-- A request with retries: `M` is what an answer gives. -/
theorem retryRequest (he : BaseEffects pre) {path : Option CString} {r : CString → Req} {n : ℕ}
    {M : Reply → S → Prop} (hM : ∀ a s, M a s → H s)
    (hloss : ∀ a s, a.rc = ZCONNECTIONLOSS → H s → M a s)
    (hreq : Triple C H (zooPath path r) M) : Triple C H (retryRequest path r n) M := by
  refine Triple.bind (((Triple.whileLoop (I := fun b : Reply × ℕ => M b.1) ?_ ?_).pre ?_).post ?_)
    fun b => .ret fun _ hs => hs
  · intro b hb s s' hr hs
    have hlost : b.1.rc = ZCONNECTIONLOSS := by
      simp only [Bool.and_eq_true, decide_eq_true_eq] at hb
      exact hb.1
    exact hloss _ _ hlost (h.stableIn none s s' hr (hM _ _ hs))
  · intro b _
    refine (hreq.pre fun _ hs => hM _ _ hs).bind fun a => ?_
    by_cases ha : a.rc = ZCONNECTIONLOSS
    · simp only [ha, if_true]
      refine ((h.step he.nanosleep fun _ _ => ?_ : Triple C H _ _)).pre (hM a)
      exact .ret fun s hs => hloss a s ha hs
    · simp only [ha, if_false]
      exact .ret fun _ hs => hs
  · exact fun s hs => hloss _ s rfl hs
  · exact fun _ _ hs => hs.1

variable {session : Sid} (hv : VisitEffects pre post)
  (hround : ∀ path : Option CString, (∀ p ∈ path, KnownPath post p) →
    Triple C H (zkrLockRound session path) fun _ => H)
include hv hround

/-- `zkr_lock_operation`, when a round of it keeps `H`. -/
theorem zkrLockOperation : Triple C H (zkrLockOperation session) fun _ => H := by
  refine h.step hv.load fun m hm => ?_
  refine .iter (I := fun _ => H) (J := fun _ => H) (fun _ hs => hs) (fun _ => h.stableIn none)
    (fun _ => ?_) fun _ => .ret fun _ hs => hs
  refine (hround _ fun p hp => ⟨m, hm, hp⟩).post fun x _ hs => ?_
  cases x <;> exact hs

theorem tryOperation : Triple C H (tryOperation session) fun _ => H := by
  refine Triple.bind (Triple.whileLoop (I := fun _ => H) (fun _ _ => h.stableIn none)
    fun b _ => ?_) fun _ => .ret fun _ hs => hs.1
  refine (h.zkrLockOperation hv hround).bind fun ret => ?_
  split_ifs
  · exact h.step hv.nanosleep fun _ _ => .ret fun _ hs => hs
  · exact .ret fun _ hs => hs

/-- The part of `zkr_lock_lock` between `pthread_mutex_lock` and `pthread_mutex_unlock`, and what
follows it. -/
theorem lockedPart {k : Code Bool} {Q : Bool → S → Prop} (hk : Triple C H k Q) :
    Triple C H (load.bind fun s => (makeDirectory s.lock.path).bind fun _ =>
      (PhpZookeeper.tryOperation session).bind fun _ => k) Q := by
  refine h.step hv.load fun m hm => ?_
  refine (h.triple (hv.makeDirectory fun _ hp => ⟨m, hm, hp⟩)).bind fun _ => ?_
  exact ((h.tryOperation hv hround).pre fun _ hs => hs.2).bind fun _ => hk

end CriticalRules

namespace PlaceRules

variable {C : Contract Op.Res S} {pre : Op → Prop} {post : (o : Op) → o.Res → Prop} {H : S → Prop}
  {F : CString → S → Prop} (h : PlaceRules C pre post H F)
include h

/-- A listing: `F` holds of the name that comes first in it. -/
theorem retryGetchildren {path : Option CString} (hp : ∀ p ∈ path, KnownPath post p) (n : ℕ) :
    Triple C H (retryGetchildren path n) fun a s => H s ∧
      (a.rc = ZOK → (∀ x ∈ a.strings, '/' ∉ x) ∧
        ∀ x rest, sortChildren a.strings = some (x :: rest) → F x s) := by
  refine h.toCriticalRules.retryRequest h.visit.toBaseEffects (fun _ _ hs => hs.1)
    (fun a s ha hs => ⟨hs, fun hok => ?_⟩) ?_
  · simp [ha] at hok
  cases path with
  | none => exact .ret fun s hs => ⟨hs, fun hok => by simp at hok⟩
  | some p =>
    have hknown := hp p rfl
    refine .step (o := .zoo (.zooGetChildren p)) _ (fun _ hs => hs) (h.stableIn _)
      (fun s a s' hs hsem => ?_) fun a => .ret fun _ hs => hs
    obtain ⟨hpost, hg, hs'⟩ := h.inside _ s a s' (h.visit.list p hknown) hs hsem
    exact ⟨hg, hs', fun hok => ⟨h.visit.names p a hpost,
      fun x rest => h.first p s a s' x rest hknown hs hsem hok⟩⟩

theorem takePlace {sorted : List CString} (hs : ∀ x ∈ sorted, '/' ∉ x) (ownerId : CString) :
    Triple C H (takePlace sorted ownerId) fun _ => H := by
  refine h.toCriticalRules.step h.visit.load fun m hm => ?_
  cases hid : m.lock.id with
  | none => exact h.toCriticalRules.undefined h.visit.toBaseEffects
  | some id =>
    dsimp only
    cases hfloor : childFloor sorted id with
    | none =>
      dsimp only
      split_ifs
      · refine h.toCriticalRules.step (h.visit.setIsOwner true) fun _ _ => ?_
        exact (h.toCriticalRules.triple (h.visit.callCompletion 0)).bind fun _ =>
          .ret fun _ hs => hs.2
      · exact .ret fun _ hs => hs
    | some lessthanme =>
      cases hpath : m.lock.path with
      | none => exact h.toCriticalRules.undefined h.visit.toBaseEffects
      | some path =>
        refine (h.toCriticalRules.triple
          (h.visit.retryRequest (some (childOf path lessthanme)) .zooWexists
          fun p hp => ?_)).bind fun a => ?_
        · obtain rfl := Option.mem_some.mp hp
          exact h.visit.watch _ _ ⟨m, hm, hpath⟩ (hs _ (mem_of_childFloor hfloor))
        · split_ifs
          · exact h.giveUp.pre fun _ hs => hs.2
          · refine
              (h.toCriticalRules.step (h.visit.setIsOwner false) fun _ _ => ?_ : Triple C H _ _).pre
              fun _ hs => hs.2
            exact .ret fun _ hs => hs

/-- The name that comes first is assigned to `ownerid`. -/
theorem findPlace (vector : List CString) :
    Triple C (fun s => H s ∧ (∀ x ∈ vector, '/' ∉ x) ∧
        ∀ x rest, sortChildren vector = some (x :: rest) → F x s)
      (findPlace vector) fun _ => H := by
  by_cases hv : ∀ x ∈ vector, '/' ∉ x
  swap
  · exact Triple.of_false fun _ hs => hv hs.2.1
  unfold PhpZookeeper.findPlace
  cases hs : sortChildren vector with
  | none => exact (h.toCriticalRules.undefined h.visit.toBaseEffects).pre fun s hs => hs.1
  | some sorted =>
    cases sorted with
    | nil => exact (h.toCriticalRules.undefined h.visit.toBaseEffects).pre fun s hs => hs.1
    | cons ownerId rest =>
      have hsorted : ∀ x ∈ ownerId :: rest, '/' ∉ x := fun x hx =>
        hv x ((mem_sortChildren hs x).mp hx)
      have hassign : Triple C (fun s => H s ∧ F ownerId s)
          ((act (.store (.lockOwnerid (some ownerId)))).bind fun _ =>
            PhpZookeeper.takePlace (ownerId :: rest) ownerId) fun _ => H :=
        .step (fun _ => H) (fun _ hs => hs) ((h.stableIn _).and (h.stableFirst ownerId))
          (fun s r s' hs => h.setOwnerid ownerId s r s' hs.1 hs.2) fun _ => h.takePlace hsorted _
      exact hassign.pre fun s hs => ⟨hs.1, hs.2.2 ownerId rest rfl⟩

end PlaceRules

namespace RoundRules

variable {C : Contract Op.Res S} {session : Sid} {pre : Op → Prop} {post : (o : Op) → o.Res → Prop}
  {P H K : S → Prop} (h : RoundRules C session pre post P H K)
include h

/-- **`zkr_lock_lock`.** When it says that the client owns the lock, `K` holds. -/
theorem zkrLockLock :
    Triple C P (zkrLockLock session) fun owner s => P s ∧ (owner = true → K s) := by
  refine .step (o := .pthreadMutexLock) (fun _ => H) (fun _ hs => hs) (h.stable _) h.lock
    fun _ => ?_
  refine h.toCriticalRules.lockedPart h.visit h.round ?_
  refine .step (o := .pthreadMutexUnlock) (fun _ => P) (fun _ hs => hs) (h.stableIn _) h.unlock
    fun _ => ?_
  exact Triple.step (o := .load) (f := fun m => .ret m.lock.isowner)
    (Q := fun owner s => P s ∧ (owner = true → K s))
    (fun m s => P s ∧ (m.lock.isowner = true → K s)) (fun _ hs => hs) (h.stable _) h.isowner
    fun m => .ret fun _ hs => hs

theorem lockWatcherFn : Triple C P (lockWatcherFn session) fun _ => P :=
  h.zkrLockLock.bind fun _ => .ret fun _ hs => hs.1

end RoundRules

/-- What is to be shown of the operations of `zkr_lock_lock`. -/
structure LockRules (C : Contract Op.Res S) (session : Sid) (pre : Op → Prop)
    (post : (o : Op) → o.Res → Prop) (P H : S → Prop) (F : CString → S → Prop)
    (K : S → Prop) : Prop where
  effects : QueueEffects session pre post
  stable : ∀ o, C.Stable o P
  stableIn : ∀ o, C.Stable o H
  inside : ∀ o s r s', pre o → H s → C.sem o s r s' → post o r ∧ C.guar o s r s' ∧ H s'
  /-- A listing, and the name that comes first. -/
  first : ∀ p s a s' x rest, KnownPath post p → H s → C.sem (.zoo (.zooGetChildren p)) s a s' →
    a.rc = ZOK → sortChildren a.strings = some (x :: rest) → F x s'
  stableFirst : ∀ x, C.Stable (some (.store (.lockOwnerid (some x)))) (F x)
  setOwnerid : ∀ x s r s', H s → F x s → C.sem (.store (.lockOwnerid (some x))) s r s' →
    C.guar (.store (.lockOwnerid (some x))) s r s' ∧ H s'
  giveUp : Triple C H giveUp fun _ => H
  lock : ∀ s r s', P s → C.sem .pthreadMutexLock s r s' → C.guar .pthreadMutexLock s r s' ∧ H s'
  unlock : ∀ s r s', H s → C.sem .pthreadMutexUnlock s r s' →
    C.guar .pthreadMutexUnlock s r s' ∧ P s'
  /-- The record that `zkr_lock_isowner` reads. -/
  isowner : ∀ s m s', P s → C.sem .load s m s' →
    C.guar .load s m s' ∧ P s' ∧ (m.lock.isowner = true → K s')

namespace LockRules

variable {C : Contract Op.Res S} {session : Sid} {pre : Op → Prop} {post : (o : Op) → o.Res → Prop}
  {P H K : S → Prop} {F : CString → S → Prop} (h : LockRules C session pre post P H F K)
include h

theorem toPlaceRules : PlaceRules C pre post H F :=
  { h with visit := h.effects.toVisitEffects }

theorem zkrLockRound {path : Option CString} (hp : ∀ p ∈ path, KnownPath post p) :
    Triple C H (zkrLockRound session path) fun _ => H := by
  refine (h.toPlaceRules.toCriticalRules.triple
    (h.effects.toVisitEffects.retryGetchildren hp)).bind fun a => ?_
  by_cases ha : ∀ x ∈ a.strings, '/' ∉ x
  · refine Triple.pre ?_ fun _ hs => hs.2
    split_ifs
    · exact .ret fun _ hs => hs
    · refine (h.toPlaceRules.toCriticalRules.triple
        (h.effects.lookupOrCreate hp ha)).bind fun ret => ?_
      refine Triple.pre ?_ fun _ hs => hs.2
      split_ifs
      · exact .ret fun _ hs => hs
      · refine h.toPlaceRules.toCriticalRules.step h.effects.load fun m _ => ?_
        split_ifs
        · refine (h.toPlaceRules.retryGetchildren hp 3).bind fun b => ?_
          split_ifs with hb
          · exact .ret fun _ hs => hs.1
          · exact ((h.toPlaceRules.findPlace b.strings).pre
              fun s hs => ⟨hs.1, hs.2 (not_not.mp hb)⟩).bind
              fun _ => .ret fun _ hs => hs
        · exact .ret fun _ hs => hs
  · exact Triple.of_false fun _ hs => ha hs.1

theorem toRoundRules : RoundRules C session pre post P H K :=
  { h with
    visit := h.effects.toVisitEffects
    round := fun _ hp => h.zkrLockRound hp }

end LockRules

end PhpZookeeper
