import PhpZookeeper.Lock.Rules
import PhpZookeeper.Session.Handlers

/-!
# Reasoning about callbacks while others act

The rule for the loop of `php_zookeeper_sess_lock` on top of the rule for `zkr_lock_lock`: `P`
holds while the session is not locked, and `Q` when it is. And the rule for the retry loops when
the connection is not lost.
-/

namespace PhpZookeeper

open Theory Prog Status

variable {S : Type} {C : Contract Op.Res S} {session : Sid} {pre : Op → Prop}
  {post : (o : Op) → o.Res → Prop} {P H K Q : S → Prop}

/-- A retry loop whose request does not lose the connection makes one round. -/
theorem Theory.Triple.retryLoop {request : Status → Req} {status : Status} {M : Reply → S → Prop}
    (hst : ∀ o, C.Stable o P)
    (hop : ∀ s a s', P s → C.sem (.zoo (request status)) s a s' →
      C.guar (.zoo (request status)) s a s' ∧ a.rc ≠ ZCONNECTIONLOSS ∧ M a s') :
    Triple C P (retryLoop request status) M := by
  refine .iter (I := fun b s => b = (status, 3) ∧ P s) (J := M) (fun s hs => ⟨rfl, hs⟩)
    (fun b s s' hr hs => ⟨hs.1, hst none s s' hr hs.2⟩) (fun b => ?_) fun a => .ret fun _ hs => hs
  by_cases hb : b = (status, 3)
  · subst hb
    refine .step (o := .zoo (request status)) (K := P)
      (fun (a : Reply) s => a.rc ≠ ZCONNECTIONLOSS ∧ M a s) (fun _ (hs : _ ∧ P _) => hs.2) (hst _)
      hop fun a => ?_
    by_cases ha : a.rc = ZCONNECTIONLOSS
    · exact .of_false fun s hs => hs.1 ha
    · simp only [ha, false_and, if_false]
      exact .ret fun s hs => hs.2
  · exact .of_false fun s hs => hb hs.1

/-- Nothing follows an access outside the memory the code owns. -/
theorem Theory.Triple.fault {α : Type} {R : α → S → Prop} :
    Triple C P (PhpZookeeper.fault : Code α) R :=
  .op (K := fun _ => True) (M := fun e _ => e.elim) (fun _ _ => True.intro) (Contract.Stable.true _)
    (fun _ e _ _ _ => e.elim) fun e => e.elim

/-- The attempts at the lock: `hlocked` is what becomes of `K` when the session is marked as
locked. -/
theorem RoundRules.lockAttempts (h : RoundRules C session pre post P H K)
    (hstable : ∀ o, C.Stable o K)
    (hlocked : ∀ s r s', P s → K s → C.sem (.store (.isLocked true)) s r s' →
      C.guar (.store (.isLocked true)) s r s' ∧ Q s')
    (husleep : ∀ usec s r s', P s → C.sem (.usleep usec) s r s' →
      C.guar (.usleep usec) s r s' ∧ P s') (lockWait attempts : ℤ) :
    Triple C P (lockAttempts session lockWait attempts) fun b s => if b then Q s else P s := by
  refine .iter (I := fun _ => P) (J := fun b s => if b then Q s else P s) (fun _ hs => hs)
    (fun _ => h.stable none) (fun n => ?_) fun b => .ret fun _ hs => hs
  refine h.zkrLockLock.bind fun owner => ?_
  cases owner with
  | true =>
    have hlock : Triple C (fun s => P s ∧ K s)
        ((act (.store (.isLocked true))).bind fun _ => .ret (.inr true) : Code (ℤ ⊕ Bool))
        fun x s => Sum.elim (fun _ => P s) (fun b => if b then Q s else P s) x :=
      .step (fun _ => Q) (fun _ hs => hs) ((h.stable _).and (hstable _))
        (fun s r s' hs => hlocked s r s' hs.1 hs.2) fun _ => .ret fun _ hs => hs
    exact hlock.pre fun s hs => ⟨hs.1, hs.2 rfl⟩
  | false =>
    have hret : ∀ n : ℤ, Triple C P (.ret (if n - 1 > 0 then .inl (n - 1) else .inr false) :
        Code (ℤ ⊕ Bool)) fun x s =>
          Sum.elim (fun _ => P s) (fun b => if b then Q s else P s) x := by
      intro n
      split_ifs
      · exact .ret fun _ hs => hs
      · exact .ret fun s hs => by simpa using hs
    refine Triple.pre ?_ fun s (hs : P s ∧ _) => hs.1
    simp only [Bool.false_eq_true, if_false]
    by_cases hwait : lockWait > 0
    · simp only [hwait, if_true]
      exact .step (o := .usleep lockWait) (fun _ => P) (fun _ hs => hs) (h.stable _)
        (husleep lockWait) fun _ => hret n
    · simp only [hwait, if_false]
      exact hret n

/-- **`php_zookeeper_sess_lock`**, when `zkr_lock_init` leaves `P`. -/
theorem RoundRules.phpZookeeperSessLock (h : RoundRules C session pre post P H K) {R : S → Prop}
    {key : CString} (hinit : Triple C R (zkrLockInit (lockPath key) (some .zooOpenAclUnsafe))
      fun _ => P)
    (hstable : ∀ o, C.Stable o K)
    (hlocked : ∀ s r s', P s → K s → C.sem (.store (.isLocked true)) s r s' →
      C.guar (.store (.isLocked true)) s r s' ∧ Q s')
    (husleep : ∀ usec s r s', P s → C.sem (.usleep usec) s r s' →
      C.guar (.usleep usec) s r s' ∧ P s') (g : Globals) :
    Triple C R (phpZookeeperSessLock session g key) fun b s => if b then Q s else P s := by
  refine hinit.bind fun ret => ?_
  split_ifs
  · exact .ret fun s hs => by simpa using hs
  · exact h.lockAttempts hstable hlocked husleep g.lockWait g.attempts

end PhpZookeeper
