import PhpZookeeper.Lock.Queue
import PhpZookeeper.Session.Effects
import PhpZookeeper.Session.Paths

/-!
# The operations of the workers that use one lock

All workers use the lock directory `p`. What their code does is summed up as a list of operations
(`LockOp`): requests that change the children of `p` only as its lock does, and assignments that
keep the records in order (`RecordOk`).
-/

namespace PhpZookeeper

open Theory Prog Status

/-- What the record of a client whose lock is `p` holds. -/
structure RecordOk (session : Sid) (p : CString) (m : PhpZookeeperSession) : Prop where
  id : ∀ x ∈ m.lock.id, OwnName session x
  lockPath : ∀ p' ∈ m.lock.path, p' = p
  path : m.path.length < p.length

/-- The operations of a client whose lock is `p`, but for the assignment of `ownerid`. -/
def LockOp (session : Sid) (p : CString) : Op → Prop
  | .zoo r => QueueReq session p r
  | .store (.lockId (some x)) => OwnName session x
  | .store (.lockInit p' _) => p' = p
  | .store (.path p') => p'.length < p.length
  | .store (.lockOwnerid _) => False
  | _ => True

variable {session : Sid} {p : CString} {m : PhpZookeeperSession}

/-- A client's operations keep its record in order. -/
theorem RecordOk.effect (h : RecordOk session p m) {o : Op}
    (ho : LockOp session p o ∨ ∃ x, o = .store (.lockOwnerid x)) (th : Thread) :
    RecordOk session p (o.effect th m) := by
  obtain ⟨hid, hlock, hpath⟩ := h
  rcases ho with ho | ⟨x, rfl⟩
  · cases o with
    | store a =>
      cases a with
      | lockId id =>
        cases id with
        | none => exact ⟨by simp [Op.effect, Assign.apply], hlock, hpath⟩
        | some x => exact ⟨fun y hy => Option.mem_some.mp hy ▸ ho, hlock, hpath⟩
      | lockInit p' acl =>
        exact ⟨by simp [Op.effect, Assign.apply], fun y hy => Option.mem_some.mp hy ▸ ho, hpath⟩
      | path p' => exact ⟨hid, hlock, ho⟩
      | lockDestroy => exact ⟨hid, by simp [Op.effect, Assign.apply], hpath⟩
      | isLocked b => exact ⟨hid, hlock, hpath⟩
      | lockIsOwner b => exact ⟨hid, hlock, hpath⟩
      | lockOwnerid x => exact ho.elim
    | _ => exact ⟨hid, hlock, hpath⟩
  · exact ⟨hid, hlock, hpath⟩

theorem length_parentOf_lt {p : CString} (h : p ≠ []) : (parentOf p).length < p.length := by
  unfold parentOf
  cases hb : beforeLast '/' p with
  | none => exact List.length_pos_iff.mpr h
  | some u =>
    obtain ⟨t, rfl, -⟩ := beforeLast_eq_some_iff.mp hb
    simp

theorem parentOf_ne_of_length {p q : CString} (h : q.length < p.length) : parentOf q ≠ p := by
  rintro rfl
  by_cases hq : q = []
  · subst hq
    exact absurd h (by decide)
  · exact absurd h (length_parentOf_lt hq).le.not_gt

/-! ### The code -/

theorem queueEffects_lockOp (hp : p ≠ []) :
    QueueEffects session (LockOp session p) (KnownResults (RecordOk session p)) := by
  have hknown : ∀ p', KnownPath (KnownResults (RecordOk session p)) p' → p' = p := by
    rintro p' ⟨m, hm, hpath⟩
    exact hm.lockPath p' hpath
  exact {
    load := trivial
    fault := trivial
    nanosleep := trivial
    completion := fun _ => trivial
    clearId := trivial
    setId := fun _ hx => hx
    setIsOwner := fun _ => trivial
    exists_ := fun _ _ => trivial
    mkdir := fun p' _ hp' => by
      rw [hknown p' hp']
      exact .inr ⟨fun h => absurd (length_parentOf_lt hp) (by rw [h]; exact lt_irrefl _), rfl⟩
    list := fun _ _ => trivial
    enqueue := fun p' _ _ hp' => by
      rw [hknown p' hp']
      exact .inl ⟨rfl, rfl⟩
    enqueued := fun _ _ _ _ ha hrc => ha.2 rfl hrc
    watch := fun _ _ _ _ => trivial
    names := fun _ _ ha => ha.1 }

theorem closeEffects_lockOp :
    CloseEffects (LockOp session p) (KnownResults (RecordOk session p)) where
  load := trivial
  fault := trivial
  nanosleep := trivial
  completion _ := trivial
  clearId := trivial
  mutexLock := trivial
  mutexUnlock := trivial
  dequeue m p' x hm hp' hx := .inl ⟨x, by rw [hm.lockPath p' hp'], hm.id x hx⟩
  efreePath := trivial
  lockDestroy := trivial
  mutexDestroy := trivial
  clearIsOwner := trivial
  clearIsLocked := trivial

theorem dataEffects_lockOp :
    DataEffects (LockOp session p) (KnownResults (RecordOk session p)) where
  load := trivial
  dataExists _ _ := trivial
  dataGet _ _ _ := trivial
  dataCreate _ _ hm := .inr ⟨parentOf_ne_of_length hm.path, rfl⟩
  dataSet _ _ _ := trivial
  dataDelete _ hm := .inr (parentOf_ne_of_length hm.path)

theorem gcEffects_lockOp (hp : p ≠ phpZkParentNode) :
    GcEffects (LockOp session p) (KnownResults (RecordOk session p)) where
  gcList := trivial
  gcExists _ _ := trivial
  gcDelete x hx := by
    have hx' : '/' ∉ x.take 499 := fun h => hx (List.mem_of_mem_take h)
    refine .inr fun h => hp ?_
    rw [← h, sessionPath_eq, parentOf_childOf _ hx']
  gcNames _ ha := ha.1

theorem lockPath_ne_nil (key : CString) : lockPath key ≠ [] := by
  have := length_lockPath key
  intro h
  rw [h, List.length_nil] at this
  omega

theorem lockPath_ne_parentNode (key : CString) : lockPath key ≠ phpZkParentNode := by
  intro h
  have := length_lockPath key
  rw [h, length_phpZkParentNode] at this
  omega

end PhpZookeeper
