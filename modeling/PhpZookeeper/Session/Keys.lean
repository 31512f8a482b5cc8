import PhpZookeeper.Session.Collect

/-!
# Which session a callback acts on

`PS_WRITE` and `PS_DESTROY` act on the path in the session record, which only `PS_READ` sets, and
do not look at the key they are given. A run of callbacks is *aimed* when each write and each
destroy comes after a read of the same key; `aimed_run_goes` says what the steps of an aimed run
do to the stored sessions.
-/

namespace PhpZookeeper

open Theory Prog Status

variable {srv : Server} {W : Type} [DecidableEq W]

/-! ### Runs of one worker -/

/-- A callback that has been called, and what it has done. -/
structure SoloStep (srv : Server) (W : Type) where
  before : World srv W
  callback : Callback
  outcome : Outcome (Option Bytes)
  after : World srv W

/-- `SoloRun w sid ok s₀ past s`: from `s₀`, the callbacks `past`, the last one first, lead to `s`;
each was `ok` when it was called. -/
inductive SoloRun (w : W) (sid : Sid) (ok : List (SoloStep srv W) → Callback → World srv W → Prop)
    (s₀ : World srv W) : List (SoloStep srv W) → World srv W → Prop where
  | refl : SoloRun w sid ok s₀ [] s₀
  | step {past : List (SoloStep srv W)} {s s' : World srv W} {cb : Callback}
      {out : Outcome (Option Bytes)} : SoloRun w sid ok s₀ past s → ok past cb s →
      Returns (soloSem w sid) (cb.code sid) s out s' →
      SoloRun w sid ok s₀ (⟨s, cb, out, s'⟩ :: past) s'

/-- The key of the last read that got past its lock. -/
def lastRead : List (SoloStep srv W) → Option CString
  | [] => none
  | st :: past =>
    match st.callback, st.outcome with
    | .psRead _ _, .error _ => lastRead past
    | .psRead _ key, _ => some key
    | _, _ => lastRead past

/-- The data of a session: `none` when there is no node, `some none` when its data is `NULL`. -/
def World.stored (s : World srv W) (key : CString) : Option (Option Bytes) :=
  (s.nodes (sessionPath key)).map Znode.data

/-- A write or a destroy comes after a read of its key, which is not cut; a destroy is of a
session whose path is accepted and has no children. -/
def Aimed (past : List (SoloStep srv W)) (cb : Callback) (s : World srv W) : Prop :=
  match cb with
  | .psWrite key _ => lastRead past = some key ∧ key.length < 499
  | .psDestroy key => lastRead past = some key ∧ key.length < 499 ∧
      validPath (sessionPath key) false ∧ ¬ s.nodes.HasChild (sessionPath key)
  | _ => True

/-- What a read finds at a path: the data of its node, unless that has expired. -/
def readOutcome (g : Globals) (s : World srv W) (p : CString) : Outcome (Option Bytes) :=
  match s.nodes p with
  | some n =>
    if validPath p false then
      if n.mtime < g.expirationTime then .failure else .success n.data
    else .failure
  | none => .failure

/-- The session of `k` has been removed, and it had last been changed before `e`. -/
def SoloStep.Drops (st : SoloStep srv W) (e : ℤ) (k : CString) : Prop :=
  st.after.stored k = none ∧ ∃ n, st.before.nodes (sessionPath k) = some n ∧ n.mtime < e

/-- What a callback is to do to the stored sessions: a write and a destroy change the session of
their key and no other. A read gives what is stored; it removes the session of its key when that has
expired, and changes no other but at the nodes of its own lock. An open changes nothing, a close
only what is stored at the worker's own lock node, and `PS_GC` removes sessions that have expired
and changes none. -/
def SoloStep.Goes (w : W) (st : SoloStep srv W) : Prop :=
  match st.callback with
  | .psWrite key val =>
    (st.outcome = .success none → st.after.stored key = some (some val)) ∧
      ∀ k, k ≠ key → st.after.stored k = st.before.stored k
  | .psDestroy key =>
    st.after.stored key = none ∧ ∀ k, k ≠ key → st.after.stored k = st.before.stored k
  | .psRead g key =>
    ((∃ message, st.outcome = .error message) ∨
      st.outcome = readOutcome g st.before (sessionPath key)) ∧
      ∀ k, ¬ lockPath key <+: sessionPath k → st.after.stored k = st.before.stored k ∨
        sessionPath k = sessionPath key ∧ st.Drops g.expirationTime k
  | .psOpen => st.after = st.before
  | .psClose => ∀ k, (∀ p x, (st.before.memory w).lock.path = some p →
      (st.before.memory w).lock.id = some x → sessionPath k ≠ childOf p x) →
      st.after.stored k = st.before.stored k
  | .psGc g => ∀ k, st.after.stored k = st.before.stored k ∨ st.Drops g.expirationTime k

/-! ### What each callback does -/

section Callbacks

variable {w : W} {sid : Sid} {s s' : World srv W} {key : CString}

/-- `PS_WRITE` stores its value at the path in the record, and changes nothing else. -/
theorem returns_psWrite_solo {val : Bytes} {out : Outcome Unit}
    (h : Returns (soloSem w sid) (psWrite key val) s out s') :
    s'.memory = s.memory ∧
      (∀ q, q ≠ (s.memory w).path →
        (s'.nodes q).map Znode.content = (s.nodes q).map Znode.content) ∧
      (out = .success () → ∃ n, s'.nodes (s.memory w).path = some n ∧ n.data = some val) := by
  simp only [psWrite, bind_eq, perform_bind, returns_op_iff, returns_bind_iff] at h
  obtain ⟨m, t, hload, a, s₁, h₁, b, s₂, h₂, hout⟩ := h
  obtain ⟨rfl, rfl⟩ := soloSem_load hload
  have hz₁ := returns_retryLoop_solo h₁
  have hz₂ := returns_retryLoop_solo h₂
  obtain ⟨hm₁, a', hans₁, rfl⟩ := soloSem_zoo hz₁
  obtain ⟨hm₂, b', hans₂, rfl⟩ := soloSem_zoo hz₂
  have hn₁ : s₁.nodes = t.nodes := hans₁.zooExists.1
  obtain ⟨hrc, rfl⟩ : (b'.rc = ZOK ↔ out = .success ()) ∧ s' = s₂ := by
    simp only [Reply.received_rc] at hout
    split_ifs at hout with hb <;> obtain ⟨rfl, rfl⟩ := returns_ret_iff.mp hout <;> simp [hb]
  refine ⟨hm₂.trans hm₁, fun q hq => ?_, fun ho => ?_⟩
  · have hframe := soloSem_frame (q := q) hz₂ (by
      split_ifs
      · simpa [Req.MayTouch] using hq
      · exact hq)
    rw [hframe, hn₁]
  · have hok := hrc.mpr ho
    split_ifs at hans₂
    · rcases hans₂.zooCreate with
        ⟨d, n, q, k, -, -, -, -, rfl, -, hdata, -, -, -, hn⟩ | ⟨-, hrc', -⟩
      · exact ⟨n, by rw [hn]; simp, hdata⟩
      · exact absurd hok hrc'
    · rcases hans₂.zooSet with ⟨n, mtime, -, -, -, hn⟩ | ⟨-, hrc', -⟩
      · exact ⟨_, by rw [hn, Function.update_self], rfl⟩
      · exact absurd hok hrc'

/-- `PS_DESTROY` removes the node at the path in the record, and changes nothing else. -/
theorem returns_psDestroy_solo {out : Outcome Unit}
    (h : Returns (soloSem w sid) (psDestroy key) s out s') :
    s'.memory = s.memory ∧
      (∀ q, q ≠ (s.memory w).path →
        (s'.nodes q).map Znode.content = (s.nodes q).map Znode.content) ∧
      (validPath (s.memory w).path false → ¬ s.nodes.HasChild (s.memory w).path →
        s'.nodes (s.memory w).path = none) := by
  simp only [psDestroy, bind_eq, perform_bind, returns_op_iff, returns_bind_iff] at h
  obtain ⟨m, t, hload, a, s₁, h₁, hout⟩ := h
  obtain ⟨rfl, rfl⟩ := soloSem_load hload
  have hz := returns_retryLoop_solo h₁
  obtain ⟨hm, a', hans, rfl⟩ := soloSem_zoo hz
  obtain rfl : s' = s₁ := by
    split_ifs at hout <;> exact (returns_ret_iff.mp hout).2
  refine ⟨hm, fun q hq => soloSem_frame hz hq, fun hv hc => ?_⟩
  rcases hans.zooDelete with ⟨n, k, -, -, -, -, hn⟩ | ⟨hn, ⟨hv', -⟩ | ⟨hp, -⟩ | ⟨hc', -⟩⟩
  · rw [hn, Function.update_self]
  · simp [hv] at hv'
  · rw [hn, hp]
  · exact absurd hc' hc

/-- What the part of `PS_READ` after its lock does: it finds no node, a node that has expired, which
it deletes if it can, or one whose data it gives. The path of the key stays in the record. -/
theorem returns_psReadData_cases {g : Globals} {out : Outcome (Option Bytes)}
    (h : Returns (soloSem w sid) (psReadData g key) s out s') :
    (s'.memory w).path = sessionPath key ∧
      (out = .failure ∧ s'.nodes = s.nodes ∧
          (validPath (sessionPath key) false = false ∨ s.nodes (sessionPath key) = none) ∨
        ∃ n, s.nodes (sessionPath key) = some n ∧ validPath (sessionPath key) false = true ∧
          (n.mtime < g.expirationTime ∧ out = .failure ∧
              (∃ a, Answers sid (.zooDelete (sessionPath key) (-1)) s.nodes a s'.nodes) ∨
            ¬ n.mtime < g.expirationTime ∧ out = .success n.data ∧ s'.nodes = s.nodes)) := by
  simp only [psReadData, bind_eq, perform_bind, returns_op_iff, returns_bind_iff] at h
  obtain ⟨u, t, hstore, m, t', hload, a, s₁, h₁, h⟩ := h
  obtain rfl := soloSem_store hstore
  obtain ⟨rfl, rfl⟩ := soloSem_load hload
  have hpath : ((s.modify w (Assign.path (sessionPath key)).apply).memory w).path =
      sessionPath key := by
    simp [Assign.apply]
  rw [hpath] at h₁
  obtain ⟨hm₁, a', hans₁, rfl⟩ := soloSem_zoo (returns_retryLoop_solo h₁)
  obtain ⟨hn₁, hcases⟩ := hans₁.zooExists
  have hpath₁ : (s₁.memory w).path = sessionPath key := by rw [hm₁, hpath]
  rw [World.nodes_modify] at hcases hn₁
  rcases hcases with ⟨hv, hrc⟩ | ⟨hp, hrc⟩ | ⟨n, hp, hv, hrc, hstat⟩
  · rw [hrc, if_pos (by decide)] at h
    obtain ⟨rfl, rfl⟩ := returns_ret_iff.mp h
    exact ⟨hpath₁, .inl ⟨rfl, hn₁, .inl hv⟩⟩
  · rw [hrc, if_pos (by decide)] at h
    obtain ⟨rfl, rfl⟩ := returns_ret_iff.mp h
    exact ⟨hpath₁, .inl ⟨rfl, hn₁, .inr hp⟩⟩
  · rw [hrc, if_neg (by decide), hstat, Znode.stat_mtime, Znode.stat_dataLength] at h
    split_ifs at h with hexp
    · simp only [returns_op_iff, returns_bind_iff] at h
      obtain ⟨m, t, hload, b, s₂, h₂, hret⟩ := h
      obtain ⟨rfl, rfl⟩ := soloSem_load hload
      obtain ⟨hm₂, b', hans₂, -⟩ := soloSem_zoo (returns_retryLoop_solo h₂)
      obtain ⟨rfl, rfl⟩ := returns_ret_iff.mp hret
      rw [hpath₁, hn₁] at hans₂
      exact ⟨by rw [hm₂, hpath₁], .inr ⟨n, hp, hv, .inl ⟨hexp, rfl, b', hans₂⟩⟩⟩
    · simp only [returns_op_iff, returns_bind_iff] at h
      obtain ⟨m, t, hload, b, s₂, h₂, hret⟩ := h
      obtain ⟨rfl, rfl⟩ := soloSem_load hload
      obtain ⟨hm₂, b', hans₂, rfl⟩ := soloSem_zoo (returns_retryLoop_solo h₂)
      rw [hpath₁, hn₁] at hans₂
      obtain ⟨hn₂, ⟨hv', -⟩ | ⟨hp', -⟩ | ⟨n', hp', -, hrc', hval, -⟩⟩ := hans₂.zooGet
      · simp [hv] at hv'
      · simp [hp] at hp'
      · obtain rfl : n = n' := Option.some.inj (hp.symm.trans hp')
        rw [Reply.received_rc, hrc', if_neg (by decide)] at hret
        obtain ⟨rfl, rfl⟩ := returns_ret_iff.mp hret
        refine ⟨by rw [hm₂, hpath₁], .inr ⟨n, hp, hv, .inr ⟨hexp, ?_, hn₂⟩⟩⟩
        simp only [Reply.received, hval]
        cases n.data <;> simp

/-- `PS_READ`, after its lock, gives what is stored for its key, and leaves the path of the key in
the record. -/
theorem returns_psReadData_solo {g : Globals} {out : Outcome (Option Bytes)}
    (h : Returns (soloSem w sid) (psReadData g key) s out s') :
    out = readOutcome g s (sessionPath key) ∧ (s'.memory w).path = sessionPath key := by
  obtain ⟨hpath, hcases⟩ := returns_psReadData_cases h
  refine ⟨?_, hpath⟩
  unfold readOutcome
  rcases hcases with ⟨hout, -, hv | hp⟩ | ⟨n, hp, hv, ⟨hexp, hout, -⟩ | ⟨hexp, hout, -⟩⟩
  · cases s.nodes (sessionPath key) <;> simp [hout, hv]
  · simp [hout, hp]
  · simp [hout, hp, hv, hexp]
  · simp [hout, hp, hv, hexp]

/-- `PS_READ`, after its lock, removes the node of its key when that has expired, and changes
nothing else. -/
theorem returns_psReadData_nodes {g : Globals} {out : Outcome (Option Bytes)}
    (h : Returns (soloSem w sid) (psReadData g key) s out s') (q : CString) :
    (s'.nodes q).map Znode.content = (s.nodes q).map Znode.content ∨
      q = sessionPath key ∧ s'.nodes q = none ∧
        ∀ n, s.nodes q = some n → n.mtime < g.expirationTime := by
  rcases (returns_psReadData_cases h).2 with
    ⟨-, hsame, -⟩ | ⟨n, hn, -, ⟨hexp, -, a, hdel⟩ | ⟨-, -, hsame⟩⟩
  · exact .inl (by rw [hsame])
  · by_cases hq : q = sessionPath key
    swap
    · exact .inl (hdel.frame hq)
    subst hq
    rcases hdel.zooDelete with ⟨n', j, -, -, -, -, ht⟩ | ⟨ht, -⟩
    · refine .inr ⟨rfl, by rw [ht, Function.update_self], fun n' hn' => ?_⟩
      obtain rfl : n = n' := Option.some.inj (hn.symm.trans hn')
      exact hexp
    · exact .inl (by rw [ht])
  · exact .inl (by rw [hsame])

/-- What the attempts at the lock of `key` do: requests for paths that begin with the lock's, and no
assignment to a path. -/
def KeepsData (key : CString) : Op → Prop
  | .zoo r => lockPath key <+: r.path
  | .store (.path _) | .store (.lockInit _ _) | .store .lockDestroy => False
  | _ => True

theorem attemptEffects_keepsData (sid : Sid) (key : CString) :
    AttemptEffects sid (KeepsData key)
      (KnownResults fun m => m.lock.path = some (lockPath key)) := by
  have hknown : ∀ p, KnownPath (KnownResults fun m => m.lock.path = some (lockPath key)) p →
      p = lockPath key := by
    rintro p ⟨m, hm, hp⟩
    exact Option.some.inj (hp.symm.trans hm)
  have hchild : ∀ x, lockPath key <+: childOf (lockPath key) x := fun x => List.prefix_append _ _
  exact {
    load := trivial
    fault := trivial
    mutexLock := trivial
    mutexUnlock := trivial
    nanosleep := trivial
    completion := fun _ => trivial
    clearId := trivial
    dequeue := fun m p x hm hp _ => by
      obtain rfl := hknown p ⟨m, hm, hp⟩
      exact hchild x
    setId := fun _ _ => trivial
    setOwnerid := fun _ => trivial
    setIsOwner := fun _ => trivial
    exists_ := fun p hp => by
      obtain rfl := hknown p hp
      exact List.prefix_rfl
    mkdir := fun p _ hp => by
      obtain rfl := hknown p hp
      exact List.prefix_rfl
    list := fun p hp => by
      obtain rfl := hknown p hp
      exact List.prefix_rfl
    enqueue := fun p _ _ hp => by
      obtain rfl := hknown p hp
      exact hchild _
    watch := fun p x hp _ => by
      obtain rfl := hknown p hp
      exact hchild x
    enqueued := fun _ _ _ _ ha hrc => ha.2 rfl hrc
    names := fun _ _ ha => ha.1
    usleep := fun _ => trivial
    isLocked := fun _ => trivial }

/-- An operation that changes no content at `q`, and no path in the record. -/
theorem soloSem_keeps {o : Op} {r : o.Res} {q : CString} (h : soloSem w sid o s r s')
    (hzoo : ∀ r, o = .zoo r → ¬ r.MayTouch q)
    (hstore : ∀ v m, o = .store v → (v.apply m).path = m.path) :
    (s'.nodes q).map Znode.content = (s.nodes q).map Znode.content ∧
      (s'.memory w).path = (s.memory w).path := by
  cases o with
  | zoo r' => exact ⟨soloSem_frame h (hzoo r' rfl), by rw [(soloSem_zoo h).1]⟩
  | store v =>
    obtain rfl := soloSem_store h
    exact ⟨rfl, by simp [hstore v _ rfl]⟩
  | _ =>
    obtain ⟨th, hth⟩ := soloSem_memory h (by simp)
    exact ⟨by rw [soloSem_nodes h (by simp)], by rw [hth]⟩

/-- The attempts at the lock of a key change nothing but the lock's nodes. -/
theorem returns_phpZookeeperSessLock_solo {g : Globals} {b : Bool} {q : CString}
    (hq : ¬ lockPath key <+: q)
    (h : Returns (soloSem w sid) (phpZookeeperSessLock sid g key) s b s') :
    (s'.nodes q).map Znode.content = (s.nodes q).map Znode.content ∧
      (s'.memory w).path = (s.memory w).path := by
  simp only [phpZookeeperSessLock, zkrLockInit, bind_eq, perform_bind, op_bind, returns_op_iff,
    pure_eq, ret_bind, ne_eq, not_true_eq_false, if_false] at h
  obtain ⟨u, s₁, h₁, u', s₂, h₂, h⟩ := h
  have hs₁ := soloSem_store h₁
  have hkeep₁ := soloSem_keeps (q := q) h₁ (by simp) (by
    rintro v m ⟨⟩
    rfl)
  have hkeep₂ := soloSem_keeps (q := q) h₂ (by simp) (by simp)
  have hlock : (s₂.memory w).lock.path = some (lockPath key) := by
    obtain ⟨th, hth⟩ := soloSem_memory h₂ (by simp)
    rw [hth, hs₁]
    simp [Assign.apply]
  have hI := ((attemptEffects_keepsData sid key).lockAttempts g.lockWait g.attempts).returns
    (I := fun t => (t.memory w).lock.path = some (lockPath key) ∧
      (t.nodes q).map Znode.content = (s.nodes q).map Znode.content ∧
      (t.memory w).path = (s.memory w).path) ?_
    ⟨hlock, hkeep₂.1.trans hkeep₁.1, hkeep₂.2.trans hkeep₁.2⟩ h
  · exact hI.2.2
  · rintro o t r t' ho ⟨hp, hc, hm⟩ hsem
    obtain ⟨hc', hm'⟩ := soloSem_keeps (q := q) hsem
      (by
        rintro r rfl htouch
        exact hq (ho.trans htouch.path_prefix))
      (by
        rintro v - rfl
        cases v <;> first | rfl | exact ho.elim)
    refine ⟨?_, ?_, hc'.trans hc, hm'.trans hm⟩
    · cases o with
      | load => rw [(soloSem_load hsem).1]; exact hp
      | zoo r =>
        obtain ⟨-, b, hans, rfl⟩ := soloSem_zoo hsem
        exact knownReply_received hans
      | _ => trivial
    · cases o with
      | store v =>
        obtain rfl := soloSem_store hsem
        cases v <;> first | exact ho.elim | simpa [Assign.apply] using hp
      | _ =>
        obtain ⟨th, hth⟩ := soloSem_memory hsem (by simp)
        rw [hth]
        exact hp

/-- What `PS_CLOSE` does: it deletes the lock's node, `childOf p x`. -/
def Closes (q : CString) : Op → Prop
  | .zoo r => ¬ r.MayTouch q
  | .store (.path _) | .store (.lockInit _ _) | .store (.lockOwnerid _) => False
  | .store (.lockId id) => id = none
  | _ => True

theorem closeEffects_closes {m : PhpZookeeperSession} {q : CString}
    (hq : ∀ p x, m.lock.path = some p → m.lock.id = some x → q ≠ childOf p x) :
    CloseEffects (Closes q) (KnownResults fun m' =>
      (m'.lock.path = m.lock.path ∨ m'.lock.path = none) ∧
        (m'.lock.id = m.lock.id ∨ m'.lock.id = none)) where
  load := trivial
  fault := trivial
  mutexLock := trivial
  mutexUnlock := trivial
  nanosleep := trivial
  completion _ := trivial
  clearId := rfl
  dequeue m' p x hm hp hx := by
    obtain ⟨hpath, hid⟩ := hm
    rw [hp] at hpath
    rw [hx] at hid
    exact hq p x (hpath.resolve_right (by simp)).symm (hid.resolve_right (by simp)).symm
  efreePath := trivial
  lockDestroy := trivial
  mutexDestroy := trivial
  clearIsOwner := trivial
  clearIsLocked := trivial

/-- `PS_CLOSE` changes nothing but the worker's own lock node. -/
theorem returns_psClose_solo {q : CString} {out : Outcome Unit}
    (hq : ∀ p x, (s.memory w).lock.path = some p → (s.memory w).lock.id = some x →
      q ≠ childOf p x) (h : Returns (soloSem w sid) psClose s out s') :
    (s'.nodes q).map Znode.content = (s.nodes q).map Znode.content ∧
      (s'.memory w).path = (s.memory w).path := by
  have hI := (closeEffects_closes hq).psClose.returns
    (I := fun t => (((t.memory w).lock.path = (s.memory w).lock.path ∨
        (t.memory w).lock.path = none) ∧
        ((t.memory w).lock.id = (s.memory w).lock.id ∨ (t.memory w).lock.id = none)) ∧
      (t.nodes q).map Znode.content = (s.nodes q).map Znode.content ∧
      (t.memory w).path = (s.memory w).path) ?_ ⟨⟨.inl rfl, .inl rfl⟩, rfl, rfl⟩ h
  · exact hI.2.2
  · rintro o t r t' ho ⟨hl, hc, hm⟩ hsem
    obtain ⟨hc', hm'⟩ := soloSem_keeps (q := q) hsem
      (by
        rintro r rfl
        exact ho)
      (by
        rintro v - rfl
        cases v <;> first | rfl | exact ho.elim)
    refine ⟨?_, ?_, hc'.trans hc, hm'.trans hm⟩
    · cases o with
      | load => rw [(soloSem_load hsem).1]; exact hl
      | zoo r =>
        obtain ⟨-, b, hans, rfl⟩ := soloSem_zoo hsem
        exact knownReply_received hans
      | _ => trivial
    · cases o with
      | store v =>
        obtain rfl := soloSem_store hsem
        cases v with
        | lockId id =>
          obtain rfl : id = none := ho
          exact ⟨by simpa [Assign.apply] using hl.1, by simp [Assign.apply]⟩
        | lockDestroy => exact ⟨by simp [Assign.apply], by simpa [Assign.apply] using hl.2⟩
        | path p => exact ho.elim
        | lockInit p acl => exact ho.elim
        | lockOwnerid o => exact ho.elim
        | isLocked b => simpa [Assign.apply] using hl
        | lockIsOwner b => simpa [Assign.apply] using hl
      | _ =>
        obtain ⟨th, hth⟩ := soloSem_memory hsem (by simp)
        rw [hth]
        exact hl

/-- `PS_GC` leaves the record alone. -/
theorem returns_psGc_solo {g : Globals} {out : Outcome Unit}
    (h : Returns (soloSem w sid) (psGc g) s out s') :
    (s'.memory w).path = (s.memory w).path := by
  have hgc : GcEffects (fun o => ∀ v, o ≠ .store v) (KnownResults fun _ => True) :=
    ⟨by simp, by simp, by simp, fun _ ha => ha.1⟩
  have hI := (hgc.psGc g).returns (I := fun t => (t.memory w).path = (s.memory w).path) ?_ rfl h
  · exact hI.2
  · intro o t r t' ho hm hsem
    refine ⟨?_, ?_⟩
    · cases o with
      | zoo r =>
        obtain ⟨-, b, hans, rfl⟩ := soloSem_zoo hsem
        exact knownReply_received hans
      | _ => trivial
    · obtain ⟨th, hth⟩ := soloSem_memory hsem ho
      rw [hth]
      exact hm

/-- `PS_GC` removes nodes that have expired, and changes none. -/
theorem returns_psGc_removes {g : Globals} {out : Outcome Unit}
    (h : Returns (soloSem w sid) (psGc g) s out s') (q : CString) :
    (s'.nodes q).map Znode.content = (s.nodes q).map Znode.content ∨
      s'.nodes q = none ∧ ∀ n, s.nodes q = some n → n.mtime < g.expirationTime := by
  by_cases hparent : s.nodes phpZkParentNode = none
  · rw [returns_psGc_orphans hparent h]
    exact .inl rfl
  · obtain ⟨hgone, hkept⟩ := returns_psGc_nodes hparent h q
    refine (em _).symm.imp hkept fun hq => ⟨hgone hq, fun n hn => ?_⟩
    obtain ⟨n', hn', hold⟩ := hq.2.2.1
    rw [hn, Option.some.injEq] at hn'
    exact hn' ▸ hold

omit [DecidableEq W] in
theorem readOutcome_congr {g : Globals} {p : CString}
    (h : (s'.nodes p).map Znode.content = (s.nodes p).map Znode.content) :
    readOutcome g s' p = readOutcome g s p := by
  unfold readOutcome
  cases hp : s'.nodes p <;> cases hp' : s.nodes p <;> simp only [hp, hp', Option.map_none,
    Option.map_some, reduceCtorEq, Option.some.injEq] at h
  · rfl
  · next n n' =>
    have hdata : n.content.data = n'.content.data := congrArg Znode.data h
    have hmtime : n.content.mtime = n'.content.mtime := congrArg Znode.mtime h
    simp only [Znode.content] at hdata hmtime
    simp only [hdata, hmtime]

omit [DecidableEq W] in
theorem readOutcome_ne_error (g : Globals) (s : World srv W) (p : CString) (message : String) :
    readOutcome g s p ≠ .error message := by
  unfold readOutcome
  split
  · split_ifs <;> simp
  · simp

/-- The data of a key is none of its lock's nodes. -/
theorem not_lockPath_prefix_sessionPath (key : CString) : ¬ lockPath key <+: sessionPath key :=
  fun h => absurd h.length_le (not_le.mpr (length_sessionPath_lt key))

/-- A read that gets past its lock gives what is stored, and leaves its path in the record. -/
theorem returns_psRead_solo {g : Globals} {out : Outcome (Option Bytes)}
    (h : Returns (soloSem w sid) (psRead sid g key) s out s') :
    ((∃ message, out = .error message) ∧ (s'.memory w).path = (s.memory w).path) ∨
      (out = readOutcome g s (sessionPath key) ∧ (s'.memory w).path = sessionPath key) := by
  unfold psRead at h
  split_ifs at h
  · simp only [bind_eq, returns_bind_iff] at h
    obtain ⟨locked, s₁, h₁, h⟩ := h
    obtain ⟨hc, hm⟩ := returns_phpZookeeperSessLock_solo (not_lockPath_prefix_sessionPath key) h₁
    split_ifs at h
    · obtain ⟨rfl, rfl⟩ := returns_ret_iff.mp h
      exact .inl ⟨⟨_, rfl⟩, hm⟩
    · obtain ⟨rfl, hpath⟩ := returns_psReadData_solo h
      exact .inr ⟨readOutcome_congr hc, hpath⟩
  · exact .inr (returns_psReadData_solo h)

/-- A read changes nothing but the nodes of its lock, and the node of its key when that has
expired. -/
theorem returns_psRead_nodes {g : Globals} {out : Outcome (Option Bytes)} {q : CString}
    (hq : ¬ lockPath key <+: q) (h : Returns (soloSem w sid) (psRead sid g key) s out s') :
    (s'.nodes q).map Znode.content = (s.nodes q).map Znode.content ∨
      q = sessionPath key ∧ s'.nodes q = none ∧
        ∀ n, s.nodes q = some n → n.mtime < g.expirationTime := by
  unfold psRead at h
  split_ifs at h
  · simp only [bind_eq, returns_bind_iff] at h
    obtain ⟨locked, s₁, h₁, h⟩ := h
    obtain ⟨hsame, -⟩ := returns_phpZookeeperSessLock_solo hq h₁
    split_ifs at h
    · obtain ⟨rfl, rfl⟩ := returns_ret_iff.mp h
      exact .inl hsame
    · rcases returns_psReadData_nodes h q with hkept | ⟨hq', hgone, hold⟩
      · exact .inl (hkept.trans hsame)
      · refine .inr ⟨hq', hgone, fun n hn => ?_⟩
        obtain ⟨n', hn', hcontent⟩ : ∃ n', s₁.nodes q = some n' ∧ n'.content = n.content := by
          simpa [hn] using hsame
        have hmtime : n'.content.mtime = n.content.mtime := congrArg Znode.mtime hcontent
        exact lt_of_eq_of_lt hmtime.symm (hold n' hn')
  · exact returns_psReadData_nodes h q

omit [DecidableEq W] in
theorem stored_congr {k : CString}
    (h : (s'.nodes (sessionPath k)).map Znode.content =
      (s.nodes (sessionPath k)).map Znode.content) : s'.stored k = s.stored k := by
  have hdata : (Znode.data ∘ Znode.content) = Znode.data := rfl
  have := congrArg (Option.map Znode.data) h
  simpa only [World.stored, Option.map_map, hdata] using this

omit [DecidableEq W] in
/-- A node that is gone was not there, or had expired. -/
theorem stored_of_gone {k : CString} {e : ℤ} {cb : Callback} {out : Outcome (Option Bytes)}
    (hgone : s'.nodes (sessionPath k) = none)
    (hold : ∀ n, s.nodes (sessionPath k) = some n → n.mtime < e) :
    s'.stored k = s.stored k ∨ SoloStep.Drops ⟨s, cb, out, s'⟩ e k := by
  have hstored : s'.stored k = none := by rw [World.stored, hgone, Option.map_none]
  cases hn : s.nodes (sessionPath k) with
  | none => exact .inl (hstored.trans (by rw [World.stored, hn, Option.map_none]))
  | some n => exact .inr ⟨hstored, n, hn, hold n hn⟩

/-- After the last read that got past its lock, the record holds that read's path. -/
theorem path_of_lastRead {ok : List (SoloStep srv W) → Callback → World srv W → Prop}
    {s₀ : World srv W} {past : List (SoloStep srv W)} (h : SoloRun w sid ok s₀ past s)
    (hlast : lastRead past = some key) : (s.memory w).path = sessionPath key := by
  induction h with
  | refl => simp [lastRead] at hlast
  | @step past s s' cb out hrun hok hret ih =>
    cases cb with
    | psRead g k =>
      rcases returns_psRead_solo hret with ⟨⟨message, rfl⟩, hm⟩ | ⟨hout, hm⟩
      · rw [hm]
        exact ih hlast
      · have hk : lastRead (⟨s, .psRead g k, out, s'⟩ :: past) = some k := by
          cases out with
          | error message => exact absurd hout.symm (readOutcome_ne_error g s _ message)
          | success a => rfl
          | failure => rfl
        rw [hk, Option.some.injEq] at hlast
        rw [hm, hlast]
    | psOpen =>
      obtain ⟨a, s₁, h₁, h₂⟩ := returns_bind_iff.mp hret
      obtain ⟨-, rfl⟩ := returns_ret_iff.mp h₂
      obtain ⟨-, rfl⟩ := returns_ret_iff.mp h₁
      exact ih hlast
    | psWrite k val =>
      obtain ⟨a, s₁, h₁, h₂⟩ := returns_bind_iff.mp hret
      obtain ⟨-, rfl⟩ := returns_ret_iff.mp h₂
      rw [(returns_psWrite_solo h₁).1]
      exact ih hlast
    | psDestroy k =>
      obtain ⟨a, s₁, h₁, h₂⟩ := returns_bind_iff.mp hret
      obtain ⟨-, rfl⟩ := returns_ret_iff.mp h₂
      rw [(returns_psDestroy_solo h₁).1]
      exact ih hlast
    | psGc g =>
      obtain ⟨a, s₁, h₁, h₂⟩ := returns_bind_iff.mp hret
      obtain ⟨-, rfl⟩ := returns_ret_iff.mp h₂
      rw [returns_psGc_solo h₁]
      exact ih hlast
    | psClose =>
      obtain ⟨a, s₁, h₁, h₂⟩ := returns_bind_iff.mp hret
      obtain ⟨-, rfl⟩ := returns_ret_iff.mp h₂
      rw [(returns_psClose_solo (q := []) (by simp [childOf]) h₁).2]
      exact ih hlast

theorem noData_eq_success {out : Outcome Unit} :
    out.noData = .success none ↔ out = .success () := by
  cases out <;> simp [Outcome.noData]

/-- One aimed step does what it is to do. -/
theorem step_goes {ok : List (SoloStep srv W) → Callback → World srv W → Prop} {s₀ : World srv W}
    {past : List (SoloStep srv W)} (h : SoloRun w sid ok s₀ past s) {cb : Callback}
    {out : Outcome (Option Bytes)} (haim : Aimed past cb s)
    (hret : Returns (soloSem w sid) (cb.code sid) s out s') :
    SoloStep.Goes w ⟨s, cb, out, s'⟩ := by
  cases cb with
  | psRead g k =>
    refine ⟨(returns_psRead_solo hret).imp And.left And.left, fun k' hk' => ?_⟩
    rcases returns_psRead_nodes hk' hret with hsame | ⟨hpath, hgone, hold⟩
    · exact .inl (stored_congr hsame)
    · exact stored_of_gone hgone hold |>.imp id fun hdrops => ⟨hpath, hdrops⟩
  | psOpen =>
    obtain ⟨a, s₁, h₁, h₂⟩ := returns_bind_iff.mp hret
    obtain ⟨-, rfl⟩ := returns_ret_iff.mp h₂
    exact (returns_ret_iff.mp h₁).2
  | psWrite k val =>
    obtain ⟨a, s₁, h₁, h₂⟩ := returns_bind_iff.mp hret
    obtain ⟨rfl, rfl⟩ := returns_ret_iff.mp h₂
    obtain ⟨hlast, hlen⟩ := haim
    obtain ⟨-, hframe, hok⟩ := returns_psWrite_solo h₁
    rw [path_of_lastRead h hlast] at hframe hok
    refine ⟨fun hout => ?_, fun k' hk' => stored_congr (hframe _ (sessionPath_ne hlen hk'))⟩
    obtain ⟨n, hn, hdata⟩ := hok (noData_eq_success.mp hout)
    simp only [World.stored, hn, Option.map_some, hdata]
  | psDestroy k =>
    obtain ⟨a, s₁, h₁, h₂⟩ := returns_bind_iff.mp hret
    obtain ⟨rfl, rfl⟩ := returns_ret_iff.mp h₂
    obtain ⟨hlast, hlen, hv, hc⟩ := haim
    obtain ⟨-, hframe, hgone⟩ := returns_psDestroy_solo h₁
    rw [path_of_lastRead h hlast] at hframe hgone
    refine ⟨?_, fun k' hk' => stored_congr (hframe _ (sessionPath_ne hlen hk'))⟩
    simp only [World.stored, hgone hv hc, Option.map_none]
  | psGc g =>
    obtain ⟨a, s₁, h₁, h₂⟩ := returns_bind_iff.mp hret
    obtain ⟨rfl, rfl⟩ := returns_ret_iff.mp h₂
    intro k
    rcases returns_psGc_removes h₁ (sessionPath k) with hsame | ⟨hgone, hold⟩
    · exact .inl (stored_congr hsame)
    · exact stored_of_gone hgone hold
  | psClose =>
    obtain ⟨a, s₁, h₁, h₂⟩ := returns_bind_iff.mp hret
    obtain ⟨rfl, rfl⟩ := returns_ret_iff.mp h₂
    exact fun k hk => stored_congr (returns_psClose_solo hk h₁).1

/-- **Where writes go.** In a run in which each write and each destroy comes after a read of its
key, every callback does to the stored sessions what it is to do. -/
theorem aimed_run_goes {s₀ : World srv W} {past : List (SoloStep srv W)}
    (h : SoloRun w sid Aimed s₀ past s) : ∀ st ∈ past, st.Goes w := by
  induction h with
  | refl => simp
  | step hrun hok hret ih =>
    intro st hst
    rcases List.mem_cons.mp hst with rfl | hst
    · exact step_goes hrun hok hret
    · exact ih st hst

end Callbacks

/-! ### Two runs -/

/-- A service with no sessions, and a worker that has called nothing. -/
def noSessions : World treeServer Unit where
  tree := [(phpZkParentNode, {})]

/-- Runs a callback of the worker. -/
def soloExec (s : World treeServer Unit) (cb : Callback) :
    Option (Outcome (Option Bytes) × World treeServer Unit) :=
  exec (fun o s => s.perform () 0 .main { choice := {} } o) 300 (cb.code 0) s

/-- A callback of the worker, with its outcome and what it leaves. -/
def soloCall (s : World treeServer Unit) (cb : Callback) : SoloStep treeServer Unit :=
  let x := (soloExec s cb).getD (.failure, s)
  ⟨s, cb, x.1, x.2⟩

theorem soloRun_soloCall {ok : List (SoloStep treeServer Unit) → Callback →
    World treeServer Unit → Prop} {s₀ s : World treeServer Unit}
    {past : List (SoloStep treeServer Unit)} (h : SoloRun () 0 ok s₀ past s) (cb : Callback)
    (hok : ok past cb s) (hx : (soloExec s cb).isSome) :
    SoloRun () 0 ok s₀ (soloCall s cb :: past) (soloCall s cb).after := by
  obtain ⟨x, hx⟩ := Option.isSome_iff_exists.mp hx
  have hret : Returns (soloSem () 0) (cb.code 0) s x.1 x.2 :=
    returns_of_exec (fun _ _ _ _ hp => ⟨{}, hp⟩) hx
  simpa only [soloCall, hx, Option.getD_some] using h.step hok hret

/-- A worker reads `k`. -/
def readK : SoloStep treeServer Unit := soloCall noSessions (.psRead {} ['k'])

/-- A read and a write of the same key. -/
theorem aimed_run_goes_read_write :
    ∃ (past : List (SoloStep treeServer Unit)) (s : World treeServer Unit),
      SoloRun () 0 Aimed noSessions past s ∧ s.stored ['k'] = some (some [1]) ∧
        ∀ st ∈ past, st.Goes () := by
  have hread : SoloRun () 0 Aimed noSessions [readK] readK.after :=
    soloRun_soloCall .refl (.psRead {} ['k']) trivial (by decide +kernel)
  have hwrite := soloRun_soloCall hread (.psWrite ['k'] [1])
    ⟨by decide +kernel, by decide⟩ (by decide +kernel)
  exact ⟨_, _, hwrite, by decide +kernel, aimed_run_goes hwrite⟩

/-- After a read of `k`, a write to `b` succeeds and stores nothing for `b`. -/
theorem write_goes_astray :
    ¬ ∀ (past : List (SoloStep treeServer Unit)) (s : World treeServer Unit),
      SoloRun () 0 (fun _ _ _ => True) noSessions past s → ∀ st ∈ past, st.Goes () := by
  intro h
  have hread : SoloRun () 0 (fun _ _ _ => True) noSessions [readK] readK.after :=
    soloRun_soloCall .refl (.psRead {} ['k']) trivial (by decide +kernel)
  have hwrite := soloRun_soloCall hread (.psWrite ['b'] [2]) trivial (by decide +kernel)
  have hgoes := h _ _ hwrite _ List.mem_cons_self
  exact absurd (hgoes.1 (by decide +kernel)) (by decide +kernel)

end PhpZookeeper
