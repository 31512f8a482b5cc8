import PhpZookeeper.Lock.Names
import Mathlib.Tactic.SplitIfs

/-!
# One call of the lock

What a function of `zoo_lock.c` does when no other thread of its worker acts. Others may change the
lock directory, so a reply may be any that is allowed.
-/

namespace PhpZookeeper

open Theory

/-- Requests and their replies, the first ones first. -/
abbrev Talk := List (Req × Reply)

/-- The record, and what a call has done so far. -/
structure LockCall where
  memory : PhpZookeeperSession
  talk : Talk := []
  /-- The arguments the completion has been called with. -/
  completed : List ℕ := []

/-- A request is answered. -/
def LockCall.say (s : LockCall) (r : Req) (a : Reply) : LockCall :=
  { s with talk := s.talk ++ [(r, a)] }

/-- The operations of a call by the thread `th`, when `allowed` says how a request may be answered.
A `pthread_mutex_lock` is not performed while the mutex is held, and nothing follows a `fault`. -/
def callSem (th : Thread) (allowed : Talk → Req → Reply → Prop) :
    (o : Op) → LockCall → o.Res → LockCall → Prop
  | .zoo r, s, a, s' => allowed s.talk r a ∧ s' = s.say r a
  | .load, s, m, s' => m = s.memory ∧ s' = s
  | .pthreadMutexLock, s, _, s' =>
    s.memory.lock.pmutex = none ∧ s' = { s with memory := Op.effect th .pthreadMutexLock s.memory }
  | .completion rc, s, _, s' => s' = { s with completed := s.completed ++ [rc] }
  | .fault, _, _, _ => False
  | o, s, _, s' => s' = { s with memory := o.effect th s.memory }

/-- Any reply may come. -/
def anyReply (_ : Talk) (_ : Req) (_ : Reply) : Prop := True

/-- The operations of a call whose requests get the replies `ρ`. -/
def callPerform (th : Thread) (ρ : Talk → Req → Reply) :
    (o : Op) → LockCall → Option (o.Res × LockCall)
  | .zoo r, s => some (ρ s.talk r, s.say r (ρ s.talk r))
  | .load, s => some (s.memory, s)
  | .pthreadMutexLock, s =>
    if s.memory.lock.pmutex = none then
      some ((), { s with memory := Op.effect th .pthreadMutexLock s.memory })
    else none
  | .completion rc, s => some ((), { s with completed := s.completed ++ [rc] })
  | .fault, _ => none
  | .store a, s => some ((), { s with memory := a.apply s.memory })
  | .pthreadMutexInit, s => some ((), { s with memory := Op.effect th .pthreadMutexInit s.memory })
  | .pthreadMutexUnlock, s =>
    some ((), { s with memory := Op.effect th .pthreadMutexUnlock s.memory })
  | .pthreadMutexDestroy, s | .nanosleep, s | .usleep _, s | .efreePath, s => some ((), s)

/-- The replies are those of `ρ`. -/
def replyOf (ρ : Talk → Req → Reply) (L : Talk) (r : Req) (a : Reply) : Prop := a = ρ L r

theorem callPerform_iff {th : Thread} {ρ : Talk → Req → Reply} (o : Op) (s : LockCall)
    (r : o.Res) (s' : LockCall) :
    callPerform th ρ o s = some (r, s') ↔ callSem th (replyOf ρ) o s r s' := by
  cases o with
  | zoo req =>
    simp only [callPerform, callSem, replyOf, Option.some.injEq, Prod.mk.injEq]
    constructor
    · rintro ⟨rfl, rfl⟩
      exact ⟨rfl, rfl⟩
    · rintro ⟨rfl, rfl⟩
      exact ⟨rfl, rfl⟩
  | load => simp [callPerform, callSem, eq_comm]
  | pthreadMutexLock =>
    by_cases hfree : s.memory.lock.pmutex = none
    · simp [callPerform, callSem, hfree, eq_comm]
    · simp [callPerform, callSem, hfree]
  | fault => simp [callPerform, callSem]
  | store a => simp [callPerform, callSem, Op.effect, eq_comm]
  | completion rc => simp [callPerform, callSem, eq_comm]
  | pthreadMutexInit => simp [callPerform, callSem, eq_comm]
  | pthreadMutexUnlock => simp [callPerform, callSem, eq_comm]
  | _ => exact (by simp [callPerform] : _ ↔ s = s').trans eq_comm

theorem callSem_mono {th : Thread} {A B : Talk → Req → Reply → Prop}
    (hAB : ∀ L r a, A L r a → B L r a) {o : Op} {s s' : LockCall} {r : o.Res}
    (h : callSem th A o s r s') : callSem th B o s r s' := by
  cases o with
  | zoo req => exact ⟨hAB _ _ _ h.1, h.2⟩
  | _ => exact h

/-- What is evaluated may happen. -/
theorem callSem_of_perform {th : Thread} {ρ : Talk → Req → Reply} (o : Op) (s : LockCall)
    (r : o.Res) (s' : LockCall) (h : callPerform th ρ o s = some (r, s')) :
    callSem th anyReply o s r s' :=
  callSem_mono (fun _ _ _ _ => trivial) ((callPerform_iff o s r s').mp h)

/-- The paths on which a watch has been left. -/
def Talk.watched (L : Talk) : List CString :=
  L.filterMap fun x => match x.1 with
    | .zooWexists p => if x.2.rc = .ZOK ∨ x.2.rc = .ZNONODE then some p else none
    | _ => none

/-- The children of the last listing that has been answered, when those before have been `names`. -/
def Talk.listedAfter (names : List CString) : Talk → List CString
  | [] => names
  | (.zooGetChildren _, a) :: L => listedAfter (if a.rc = .ZOK then a.strings else names) L
  | _ :: L => listedAfter names L

/-- The children of the last listing that has been answered. -/
def Talk.listed (L : Talk) : List CString := L.listedAfter []

@[simp] theorem Talk.watched_append (L : Talk) (x : Req × Reply) :
    Talk.watched (L ++ [x]) = Talk.watched L ++ Talk.watched [x] := List.filterMap_append ..

theorem Talk.listedAfter_append (names : List CString) (L L' : Talk) :
    Talk.listedAfter names (L ++ L') = Talk.listedAfter (Talk.listedAfter names L) L' := by
  induction L generalizing names with
  | nil => rfl
  | cons x L ih =>
    obtain ⟨r, a⟩ := x
    cases r with
    | zooGetChildren p => exact ih _
    | _ => exact ih _

theorem Talk.listed_append (L L' : Talk) :
    Talk.listed (L ++ L') = Talk.listedAfter (Talk.listed L) L' := listedAfter_append [] L L'

end PhpZookeeper
