import PhpZookeeper.Session.Effects
import PhpZookeeper.Session.Paths
import PhpZookeeper.Server.Tree

/-!
# A worker alone with the service

What the operations of one worker do when the service answers every request and no one else acts:
a request leaves the record alone, everything else leaves the nodes alone, and a retry loop ends
with its first request.
-/

namespace PhpZookeeper

open Theory Prog Status

variable {srv : Server} {W : Type} [DecidableEq W]

/-- The operations of a worker's main thread, alone with a service that answers every
request. -/
def soloSem (w : W) (sid : Sid) (o : Op) (s : World srv W) (r : o.Res) (s' : World srv W) : Prop :=
  ∃ c, s.perform w sid .main { choice := c } o = some (r, s')

/-! ### Requests that are answered -/

section Requests

variable {w : W} {sid : Sid} {s s' : World srv W} {a : Reply}

theorem soloSem_zoo {r : Req} (h : soloSem w sid (.zoo r) s a s') :
    s'.memory = s.memory ∧ ∃ b, Answers sid r s.nodes b s'.nodes ∧ a = b.received r := by
  obtain ⟨c, h⟩ := h
  obtain ⟨b, t, hans, hmem, hres⟩ := s.request_spec w sid (d := { choice := c }) rfl r
  simp only [World.perform, Option.some.injEq] at h
  rw [h] at hmem hres
  obtain ⟨hb, rfl⟩ := hres
  exact ⟨hmem, b, hans, hb⟩

theorem soloSem_load {m : PhpZookeeperSession} (h : soloSem w sid .load s m s') :
    m = s.memory w ∧ s' = s := by
  obtain ⟨c, h⟩ := h
  obtain ⟨rfl, rfl⟩ := Prod.mk.inj (Option.some.inj h)
  exact ⟨rfl, rfl⟩

theorem soloSem_store {v : Assign} {u : Unit} (h : soloSem w sid (.store v) s u s') :
    s' = s.modify w v.apply := by
  obtain ⟨c, h⟩ := h
  exact (Prod.mk.inj (Option.some.inj h)).2.symm

/-- What is left of the record by an operation that is no assignment. -/
theorem soloSem_memory {o : Op} {r : o.Res} (h : soloSem w sid o s r s')
    (ho : ∀ v, o ≠ .store v) :
    ∃ th, s'.memory w = { s.memory w with lock := { (s.memory w).lock with pmutex := th } } := by
  obtain ⟨c, h⟩ := h
  rw [World.perform_memory h, Function.update_self]
  cases o with
  | store v => exact absurd rfl (ho v)
  | _ => exact ⟨_, rfl⟩

/-- An operation that is no request leaves the nodes alone. -/
theorem soloSem_nodes {o : Op} {r : o.Res} (h : soloSem w sid o s r s') (ho : ∀ r, o ≠ .zoo r) :
    s'.nodes = s.nodes := by
  obtain ⟨c, h⟩ := h
  cases o with
  | zoo q => exact absurd rfl (ho q)
  | fault => exact r.elim
  | pthreadMutexLock =>
    simp only [World.perform] at h
    split_ifs at h
    obtain rfl := (Prod.mk.inj (Option.some.inj h)).2
    rfl
  | _ =>
    obtain rfl := (Prod.mk.inj (Option.some.inj h)).2
    rfl

/-- A retry loop ends with its first request. -/
theorem returns_retryLoop_solo {request : Status → Req} {status : Status}
    (h : Returns (soloSem w sid) (retryLoop request status) s a s') :
    soloSem w sid (.zoo (request status)) s a s' := by
  obtain ⟨b, s₁, hz, hk⟩ := returns_retryLoop_iff.mp h
  obtain ⟨-, b', hans, rfl⟩ := soloSem_zoo hz
  rw [if_neg (by simpa using hans.rc_ne_failure)] at hk
  obtain ⟨rfl, rfl⟩ := hk
  exact hz

/-- A request leaves alone what it cannot touch. -/
theorem soloSem_frame {r : Req} {a : Reply} {q : CString} (h : soloSem w sid (.zoo r) s a s')
    (hq : ¬ r.MayTouch q) : (s'.nodes q).map Znode.content = (s.nodes q).map Znode.content := by
  obtain ⟨-, b, hans, -⟩ := soloSem_zoo h
  exact hans.frame hq

theorem exists_soloSem (w : W) (sid : Sid) (r : Req) (s : World srv W) :
    ∃ a s', soloSem w sid (.zoo r) s a s' := by
  obtain ⟨c⟩ := srv.answers
  exact ⟨_, _, c, rfl⟩

end Requests

end PhpZookeeper
