import PhpZookeeper.Session.Keys
import PhpZookeeper.System.Confinement
import PhpZookeeper.System.Isolation
import PhpZookeeper.Theory.Expiring

/-!
# The session handler is a store whose entries expire

What `php_zookeeper_session.c` is for, when the callbacks of any number of workers run one after
another: `PS_WRITE` puts an entry, `PS_DESTROY` removes one, `PS_READ` finds one that is not older
than its limit, and `PS_READ` and `PS_GC` drop old ones. So `PS_READ` gives what was last written,
by whichever worker, until that expires or is destroyed, however often `PS_GC` has run
(`session_kept`).
-/

namespace PhpZookeeper

open Theory Prog Status

variable {srv : Server} {W : Type}

/-! ### Session ids -/

/-- The keys `K` are session ids that have nothing in common: none is cut, and none is the lock of
another. -/
structure SessionIds (K : Set CString) : Prop where
  slash : ∀ k ∈ K, '/' ∉ k
  length : ∀ k ∈ K, k.length < 499
  lock : ∀ k ∈ K, ∀ k' ∈ K, k ≠ k' ++ "-lock".toList
  valid : ∀ k ∈ K, validPath (sessionPath k) false = true

/-- A node of the lock of a key in `K`. -/
def NodeOfLock (K : Set CString) (q : CString) : Prop :=
  ∃ k ∈ K, q = lockPath k ∨ ∃ session x, OwnName session x ∧ q = childOf (lockPath k) x

section Ids

variable {K : Set CString} {k k' q : CString}

theorem SessionIds.sessionPath_eq (h : SessionIds K) (hk : k ∈ K) :
    sessionPath k = childOf phpZkParentNode k := by
  rw [PhpZookeeper.sessionPath_eq, List.take_of_length_le (h.length k hk).le]

theorem SessionIds.lockPath_eq (h : SessionIds K) (hk : k ∈ K) :
    lockPath k = childOf phpZkParentNode (k ++ "-lock".toList) := by
  have hlen := h.length k hk
  rw [PhpZookeeper.lockPath_eq, List.take_of_length_le (by simp; omega)]

theorem SessionIds.parentOf_sessionPath (h : SessionIds K) (hk : k ∈ K) :
    parentOf (sessionPath k) = phpZkParentNode := by
  rw [h.sessionPath_eq hk, parentOf_childOf _ (h.slash k hk)]

/-- The data of a session is no node of a lock. -/
theorem SessionIds.not_nodeOfLock (h : SessionIds K) (hk : k ∈ K) :
    ¬ NodeOfLock K (sessionPath k) := by
  rintro ⟨k', hk', hq | ⟨session, x, hx, hq⟩⟩
  · rw [h.sessionPath_eq hk, h.lockPath_eq hk', childOf_left_inj] at hq
    exact h.lock k hk k' hk' hq
  · have hparent := congrArg parentOf hq
    rw [h.parentOf_sessionPath hk, parentOf_childOf _ hx.2] at hparent
    exact lockPath_ne_parent k' hparent.symm

/-- Nothing below the data of a session is a node of a key. -/
theorem SessionIds.not_ownsNode (h : SessionIds K) (hk : k ∈ K) (hk' : k' ∈ K) {x : CString}
    (hx : '/' ∉ x) : ¬ OwnsNode k' (childOf (sessionPath k) x) := by
  have hparent : parentOf (childOf (sessionPath k) x) = sessionPath k := parentOf_childOf _ hx
  rintro (hpath | hqueue)
  · have hin := hpath.parentOf_eq (h.slash k' hk')
    rw [hparent] at hin
    have hlen := length_sessionPath k
    rw [hin, length_phpZkParentNode] at hlen
    omega
  · have hin := hqueue.parentOf_eq
    rw [hparent] at hin
    exact h.not_nodeOfLock hk ⟨k', hk', .inl hin⟩

/-! ### What the lock does -/

/-- The operations of the lock of a key in `K`, which leave the data of sessions alone. -/
def LockOnly (session : Sid) (K : Set CString) : Op → Prop
  | .zoo r => ∀ q, r.MayTouch q → NodeOfLock K q
  | .store (.lockId (some x)) => OwnName session x
  | .store (.lockInit p _) => ∃ k ∈ K, p = lockPath k
  | .store (.path _) => False
  | _ => True

variable {session : Sid}

theorem lockEffects_lockOnly :
    LockEffects session (LockOnly session K) (KnownResults (KeyRecord session K)) := by
  have hknown : ∀ p, KnownPath (KnownResults (KeyRecord session K)) p →
      ∃ k ∈ K, p = lockPath k := by
    rintro p ⟨m, hm, hp⟩
    exact hm.lockPath p hp
  exact {
    load := trivial
    fault := trivial
    nanosleep := trivial
    completion := fun _ => trivial
    clearId := trivial
    mutexLock := trivial
    mutexUnlock := trivial
    setIsOwner := fun _ => trivial
    setOwnerid := fun _ => trivial
    setId := fun _ hx => hx
    dequeue := fun m p x hm hp hx q hq => by
      obtain ⟨k, hk, rfl⟩ := hm.lockPath p hp
      exact ⟨k, hk, .inr ⟨session, x, hm.id x hx, hq⟩⟩
    exists_ := fun _ _ _ hq => False.elim hq
    mkdir := fun p _ hp q hq => by
      obtain ⟨k, hk, rfl⟩ := hknown p hp
      exact ⟨k, hk, .inl (by simpa [Req.MayTouch] using hq)⟩
    list := fun _ _ _ hq => False.elim hq
    enqueue := fun p _ _ hp q hq => by
      obtain ⟨k, hk, rfl⟩ := hknown p hp
      obtain ⟨n, rfl⟩ : ∃ n, q = childOf (lockPath k) (lockPrefix session) ++ sprintf010d n := by
        simpa [Req.MayTouch] using hq
      exact ⟨k, hk, .inr ⟨session, lockName session n, ownName_lockName session n,
        by simp [childOf, lockName]⟩⟩
    enqueued := fun _ _ _ _ ha hrc => ha.2 rfl hrc
    watch := fun _ _ _ _ _ hq => False.elim hq
    names := fun _ _ ha => ha.1 }

theorem attemptEffects_lockOnly :
    AttemptEffects session (LockOnly session K) (KnownResults (KeyRecord session K)) :=
  { lockEffects_lockOnly with
    usleep := fun _ => trivial
    isLocked := fun _ => trivial }

theorem closeEffects_lockOnly :
    CloseEffects (LockOnly session K) (KnownResults (KeyRecord session K)) :=
  { lockEffects_lockOnly.toUnlockEffects with
    efreePath := trivial
    lockDestroy := trivial
    mutexDestroy := trivial
    clearIsOwner := trivial
    clearIsLocked := trivial }

theorem KeyRecord.lockOnly {m : PhpZookeeperSession} (h : KeyRecord session K m) {o : Op}
    (ho : LockOnly session K o) (th : Thread) : KeyRecord session K (o.effect th m) := by
  cases o with
  | store v =>
    refine h.effect (o := .store v) ?_ th
    cases v with
    | path p => exact ho.elim
    | lockId id =>
      cases id with
      | none => trivial
      | some x => exact ho
    | _ => exact ho
  | _ => exact ⟨h.id, h.lockPath, h.path⟩

theorem LockOnly.path_effect {m : PhpZookeeperSession} {o : Op} (ho : LockOnly session K o)
    (th : Thread) : (o.effect th m).path = m.path := by
  cases o with
  | store v =>
    cases v with
    | path p => exact ho.elim
    | _ => rfl
  | _ => rfl

theorem performs_sessLock (g : Globals) (hk : k ∈ K) :
    Performs (LockOnly session K) (KnownResults (KeyRecord session K))
      (phpZookeeperSessLock session g k) fun _ => True := by
  have hinit : Performs (LockOnly session K) (KnownResults (KeyRecord session K))
      (zkrLockInit (lockPath k) (some .zooOpenAclUnsafe)) fun _ => True :=
    .step ⟨k, hk, rfl⟩ fun _ _ => .step trivial fun _ _ => .ret trivial
  refine hinit.bind fun ret _ => ?_
  split_ifs
  · exact .ret trivial
  · exact attemptEffects_lockOnly.lockAttempts _ _

end Ids

/-! ### Operations of one thread -/

variable [DecidableEq W]

/-- An operation of a thread that the service answers, while nobody else acts. -/
def aloneSem (w : W) (sid : Sid) (th : Thread) (o : Op) (s : World srv W) (r : o.Res)
    (s' : World srv W) : Prop :=
  ∃ c, s.perform w sid th { choice := c } o = some (r, s')

section Alone

variable {K : Set CString} {k : CString} {w v : W} {session : Sid} {th : Thread}
  {s s' : World srv W} {α : Type} {p : Code α} {a : α} {Q : α → Prop}

theorem aloneSem.knownResults {o : Op} {r : o.Res} (h : aloneSem w session th o s r s')
    (hrecord : KeyRecord session K (s.memory w)) : KnownResults (KeyRecord session K) o r := by
  obtain ⟨c, hperf⟩ := h
  cases o with
  | load =>
    obtain ⟨rfl, -⟩ := Prod.mk.inj (Option.some.inj hperf)
    exact hrecord
  | zoo r => exact knownReply_of_perform hperf
  | _ => trivial

/-- What a callback leaves alone: the others' records, and where there is no node, and none of a
key in `K` can be, there is still none. -/
theorem returns_workerOp {gc : Prop}
    (hp : Performs (WorkerOp session K gc) (KnownResults (KeyRecord session K)) p Q)
    (h : Returns (aloneSem w session th) p s a s') (hrecord : KeyRecord session K (s.memory w)) :
    KeyRecord session K (s'.memory w) ∧ (∀ v, v ≠ w → s'.memory v = s.memory v) ∧
      ∀ q, (∀ k ∈ K, ¬ OwnsNode k q) → s.nodes q = none → s'.nodes q = none := by
  refine (hp.returns (I := fun t => KeyRecord session K (t.memory w) ∧
    (∀ v, v ≠ w → t.memory v = s.memory v) ∧
    ∀ q, (∀ k ∈ K, ¬ OwnsNode k q) → s.nodes q = none → t.nodes q = none) ?_
    ⟨hrecord, fun _ _ => rfl, fun _ _ h => h⟩ h).2
  rintro o t r t' ho ⟨hr, hothers, hnone⟩ hsem
  refine ⟨hsem.knownResults hr, ?_⟩
  obtain ⟨c, hperf⟩ := hsem
  have hmemory := World.perform_memory hperf
  refine ⟨?_, fun v hv => by rw [hmemory, Function.update_of_ne hv, hothers v hv],
    fun q hq hs => ?_⟩
  · rw [hmemory, Function.update_self]
    exact hr.workerOp ho th
  · rcases World.perform_nodes hperf with ⟨htree, -⟩ | ⟨req, b, rfl, hans, -⟩
    · rw [World.nodes, htree]
      exact hnone q hq hs
    · rcases ho.frame hans hq with hsame | ⟨-, hgone, -⟩
      · rw [hnone q hq hs, Option.map_none, Option.map_eq_none_iff] at hsame
        exact hsame
      · exact hgone

/-- What the lock leaves alone: the data of sessions, and the path in the record. -/
theorem returns_lockOnly (hK : SessionIds K)
    (hp : Performs (LockOnly session K) (KnownResults (KeyRecord session K)) p Q)
    (h : Returns (aloneSem w session th) p s a s') (hrecord : KeyRecord session K (s.memory w)) :
    (s'.memory w).path = (s.memory w).path ∧
      ∀ k ∈ K, (s'.nodes (sessionPath k)).map Znode.content =
        (s.nodes (sessionPath k)).map Znode.content := by
  refine (hp.returns (I := fun t => KeyRecord session K (t.memory w) ∧
    (t.memory w).path = (s.memory w).path ∧ ∀ k ∈ K, (t.nodes (sessionPath k)).map Znode.content =
      (s.nodes (sessionPath k)).map Znode.content) ?_ ⟨hrecord, rfl, fun _ _ => rfl⟩ h).2.2
  rintro o t r t' ho ⟨hr, hpath, hdata⟩ hsem
  refine ⟨hsem.knownResults hr, ?_⟩
  obtain ⟨c, hperf⟩ := hsem
  rw [World.perform_memory hperf, Function.update_self]
  refine ⟨hr.lockOnly ho th, (ho.path_effect th).trans hpath,
    fun k hk => (World.perform_frame hperf ?_).trans (hdata k hk)⟩
  · rintro req rfl htouch
    exact hK.not_nodeOfLock hk (ho _ htouch)

end Alone

/-! ### The entries -/

/-- What is stored for the keys in `K`: the data of each session, and when it was last changed. -/
def World.entries (K : Set CString) [DecidablePred (· ∈ K)] (s : World srv W) :
    Expiring CString (Option Bytes) ℤ := fun k =>
  if k ∈ K then (s.nodes (sessionPath k)).map fun n => (n.data, n.mtime) else none

section Entries

variable {K : Set CString} [DecidablePred (· ∈ K)] {k key : CString} {w : W} {sid : Sid}
  {s s' : World srv W} {g : Globals}

omit [DecidableEq W] in
theorem entries_of_mem (hk : k ∈ K) :
    s.entries K k = (s.nodes (sessionPath k)).map fun n => (n.data, n.mtime) := if_pos hk

omit [DecidableEq W] in
theorem entries_congr (h : k ∈ K → (s'.nodes (sessionPath k)).map Znode.content =
    (s.nodes (sessionPath k)).map Znode.content) : s'.entries K k = s.entries K k := by
  by_cases hk : k ∈ K
  · have hentry := congrArg (Option.map fun n : Znode => (n.data, n.mtime)) (h hk)
    rw [Option.map_map, Option.map_map] at hentry
    rw [entries_of_mem hk, entries_of_mem hk]
    exact hentry
  · rw [World.entries, World.entries, if_neg hk, if_neg hk]

omit [DecidableEq W] in
/-- What a read finds. -/
theorem readOutcome_eq (hK : SessionIds K) (hk : k ∈ K) :
    readOutcome g s (sessionPath k) =
      match (s.entries K).find g.expirationTime k with
      | some v => .success v
      | none => .failure := by
  unfold readOutcome Expiring.find
  rw [entries_of_mem hk, hK.valid k hk]
  cases s.nodes (sessionPath k) with
  | none => rfl
  | some n =>
    by_cases hexp : n.mtime < g.expirationTime
    · simp [hexp, Option.filter_some, hexp.not_ge]
    · simp [hexp, Option.filter_some, not_lt.mp hexp]

omit [DecidableEq W] in
/-- A change of one session. -/
theorem entries_update (hK : SessionIds K) (hk : k ∈ K)
    (h : ∀ q, q ≠ sessionPath k →
      (s'.nodes q).map Znode.content = (s.nodes q).map Znode.content) :
    s'.entries K = Function.update (s.entries K) k
      ((s'.nodes (sessionPath k)).map fun n => (n.data, n.mtime)) := by
  refine Function.eq_update_iff.mpr ⟨entries_of_mem hk, fun k' hk' => entries_congr fun _ => ?_⟩
  exact h _ (sessionPath_ne (hK.length k hk) hk')

/-- `PS_READ` drops its own session when that has expired. -/
theorem returns_psReadData_entries (hK : SessionIds K) (hk : k ∈ K)
    {out : Outcome (Option Bytes)} (h : Returns (soloSem w sid) (psReadData g k) s out s') :
    (s.entries K).Drops g.expirationTime (s'.entries K) := by
  intro k'
  rcases returns_psReadData_nodes h (sessionPath k') with hsame | ⟨hpath, hgone, hexp⟩
  · exact .inl (entries_congr fun _ => hsame)
  · obtain rfl : k' = k := by
      by_contra hne
      exact sessionPath_ne (hK.length k hk) hne hpath
    refine .inr ⟨by rw [entries_of_mem hk, hgone, Option.map_none], fun x hx => ?_⟩
    rw [entries_of_mem hk] at hx
    obtain ⟨n, hn, rfl⟩ := Option.map_eq_some_iff.mp hx
    exact hexp n hn

/-- `PS_READ` finds its session, unless it does not get its lock. -/
theorem returns_psRead_entries (hK : SessionIds K) (hk : k ∈ K) {out : Outcome (Option Bytes)}
    (h : Returns (soloSem w sid) (psRead sid g k) s out s')
    (hrecord : KeyRecord sid K (s.memory w)) :
    (∃ message, out = .error message) ∧ s'.entries K = s.entries K ∨
      out = readOutcome g s (sessionPath k) ∧
        (s.entries K).Drops g.expirationTime (s'.entries K) := by
  unfold psRead at h
  split_ifs at h
  · simp only [bind_eq, returns_bind_iff] at h
    obtain ⟨locked, s₁, h₁, h⟩ := h
    obtain ⟨-, hdata⟩ := returns_lockOnly hK (performs_sessLock g hk) h₁ hrecord
    have hentries : s₁.entries K = s.entries K := funext fun k => entries_congr (hdata k)
    split_ifs at h
    · obtain ⟨rfl, rfl⟩ := returns_ret_iff.mp h
      exact .inl ⟨⟨_, rfl⟩, hentries⟩
    · refine .inr ⟨?_, hentries ▸ returns_psReadData_entries hK hk h⟩
      rw [(returns_psReadData_solo h).1, readOutcome_eq hK hk, readOutcome_eq hK hk, hentries]
  · exact .inr ⟨(returns_psReadData_solo h).1, returns_psReadData_entries hK hk h⟩

/-- `PS_WRITE` puts its value, or fails and changes nothing. -/
theorem returns_psWrite_entries (hK : SessionIds K) (hk : k ∈ K)
    (hpath : (s.memory w).path = sessionPath k) {val : Bytes} {out : Outcome Unit}
    (h : Returns (soloSem w sid) (psWrite key val) s out s') :
    out = .success () ∧ (∃ n, s'.nodes (sessionPath k) = some n ∧ s'.entries K =
        Function.update (s.entries K) k (some (some val, n.mtime))) ∨
      out = .failure ∧ s'.entries K = s.entries K := by
  obtain ⟨-, hothers, hok⟩ := returns_psWrite_solo h
  rw [hpath] at hothers hok
  simp only [psWrite, bind_eq, perform_bind, returns_op_iff, returns_bind_iff] at h
  obtain ⟨m, t, hload, a, s₁, h₁, b, s₂, h₂, hout⟩ := h
  obtain ⟨rfl, rfl⟩ := soloSem_load hload
  obtain ⟨-, a', hans₁, rfl⟩ := soloSem_zoo (returns_retryLoop_solo h₁)
  obtain ⟨-, b', hans₂, rfl⟩ := soloSem_zoo (returns_retryLoop_solo h₂)
  have hn₁ : s₁.nodes = t.nodes := hans₁.zooExists.1
  obtain ⟨hends, rfl⟩ : (b'.rc = ZOK ∧ out = .success () ∨ b'.rc ≠ ZOK ∧ out = .failure) ∧
      s' = s₂ := by
    simp only [Reply.received_rc] at hout
    split_ifs at hout with hb <;> obtain ⟨rfl, rfl⟩ := returns_ret_iff.mp hout <;> simp [hb]
  rcases hends with ⟨-, rfl⟩ | ⟨hrc, rfl⟩
  · obtain ⟨n, hn, hdata⟩ := hok rfl
    refine .inl ⟨rfl, n, hn, ?_⟩
    rw [entries_update hK hk hothers, hn, Option.map_some, hdata]
  · have hn₂ : s'.nodes = s₁.nodes := by
      split_ifs at hans₂
      · rcases hans₂.zooCreate with ⟨_, _, _, _, hrc', -⟩ | ⟨hn, -⟩
        · exact absurd hrc' hrc
        · exact hn
      · rcases hans₂.zooSet with ⟨_, _, -, -, hrc', -⟩ | ⟨hn, -⟩
        · exact absurd hrc' hrc
        · exact hn
    exact .inr ⟨rfl, funext fun k => entries_congr fun _ => by rw [hn₂, hn₁]⟩

/-- `PS_DESTROY` removes its session. -/
theorem returns_psDestroy_entries (hK : SessionIds K) (hk : k ∈ K)
    (hpath : (s.memory w).path = sessionPath k) (hleaf : ¬ s.nodes.HasChild (sessionPath k))
    {out : Outcome Unit} (h : Returns (soloSem w sid) (psDestroy key) s out s') :
    s'.entries K = Function.update (s.entries K) k none := by
  obtain ⟨-, hothers, hgone⟩ := returns_psDestroy_solo h
  rw [hpath] at hothers hgone
  rw [entries_update hK hk hothers, hgone (hK.valid k hk) hleaf, Option.map_none]

/-- `PS_GC` drops sessions that have expired. -/
theorem returns_psGc_entries {out : Outcome Unit} (h : Returns (soloSem w sid) (psGc g) s out s') :
    (s.entries K).Drops g.expirationTime (s'.entries K) := by
  by_cases hparent : s.nodes phpZkParentNode = none
  · have hnone : ∀ {b t'}, Answers sid (.zooGetChildren phpZkParentNode) s.nodes b t' →
        b.rc ≠ ZOK ∧ t' = s.nodes := by
      intro b t' hans
      cases hans with
      | badPath _ => exact ⟨by decide, rfl⟩
      | childrenOk _ hn _ _ =>
        rw [hparent] at hn
        cases hn
      | childrenNoNode _ _ => exact ⟨by decide, rfl⟩
    simp only [psGc, bind_eq, perform_bind, returns_op_iff] at h
    obtain ⟨a, s₁, h₁, hrest⟩ := h
    obtain ⟨-, b, hans, rfl⟩ := soloSem_zoo h₁
    rw [if_neg (hnone hans).1] at hrest
    obtain ⟨-, rfl⟩ := returns_ret_iff.mp hrest
    exact fun k => .inl (entries_congr fun _ => by rw [(hnone hans).2])
  have hwithout := returns_psGc_nodes hparent h
  intro k
  by_cases hk : k ∈ K
  swap
  · exact .inl (entries_congr fun hmem => absurd hmem hk)
  by_cases hcollected : (∃ x, '/' ∉ x ∧ s.nodes (childOf phpZkParentNode x) ≠ none ∧
      sessionPath k = sessionPath x) ∧ s.nodes.Deletable g.expirationTime (sessionPath k)
  · refine .inr ⟨by rw [entries_of_mem hk, (hwithout _).1 hcollected, Option.map_none],
      fun x hx => ?_⟩
    obtain ⟨n, hn, hold⟩ := hcollected.2.2.1
    rw [entries_of_mem hk, hn] at hx
    exact Option.some.inj hx ▸ hold
  · exact .inl (entries_congr fun _ => (hwithout _).2 hcollected)

end Entries

/-! ### Callbacks, one after another -/

/-- A callback that a worker has called, and the world it has left. -/
structure SessionCall (srv : Server) (W : Type) where
  worker : W
  callback : Callback
  outcome : Outcome (Option Bytes)
  after : World srv W

/-- What a callback does to the store, unless it has failed before. -/
def SessionCall.event (c : SessionCall srv W) : Option (StoreEvent CString (Option Bytes) ℤ) :=
  match c.callback, c.outcome with
  | .psRead g key, .success data => some (.read key g.expirationTime (some data))
  | .psRead g key, .failure => some (.read key g.expirationTime none)
  | .psWrite key val, .success _ =>
    some (.put key (some val) (((c.after.nodes (sessionPath key)).map Znode.mtime).getD 0))
  | .psDestroy key, _ => some (.remove key)
  | .psGc g, _ => some (.collect g.expirationTime)
  | _, _ => none

/-- The key of the worker's last read that got past its lock. -/
def lastReadOf (w : W) : List (SessionCall srv W) → Option CString
  | [] => none
  | c :: past =>
    if c.worker = w then
      match c.callback, c.outcome with
      | .psRead _ _, .error _ => lastReadOf w past
      | .psRead _ key, _ => some key
      | _, _ => lastReadOf w past
    else lastReadOf w past

/-- How PHP's session module calls the callbacks for keys in `K`: a worker writes and destroys the
session it has read. -/
def InTurn (K : Set CString) (past : List (SessionCall srv W)) (w : W) : Callback → Prop
  | .psRead _ key => key ∈ K
  | .psWrite key _ | .psDestroy key => lastReadOf w past = some key
  | _ => True

/-- `SessionRun sid K s₀ past s`: from `s₀`, the callbacks `past` of any workers, the last one
first, lead to `s`, each called when the one before has returned; between them `lock_watcher_fn` may
run for any worker. -/
inductive SessionRun (sid : W → Sid) (K : Set CString) (s₀ : World srv W) :
    List (SessionCall srv W) → World srv W → Prop where
  | start : SessionRun sid K s₀ [] s₀
  | call {past : List (SessionCall srv W)} {s s' : World srv W} {out : Outcome (Option Bytes)}
      (w : W) (cb : Callback) : SessionRun sid K s₀ past s → InTurn K past w cb →
      Returns (soloSem w (sid w)) (cb.code (sid w)) s out s' →
      SessionRun sid K s₀ (⟨w, cb, out, s'⟩ :: past) s'
  | notify {past : List (SessionCall srv W)} {s s' : World srv W} (w : W) :
      SessionRun sid K s₀ past s →
      Returns (aloneSem w (sid w) .watcher) (lockWatcherFn (sid w)) s () s' →
      SessionRun sid K s₀ past s'

omit [DecidableEq W] in
/-- A callback without data. -/
theorem returns_noData {sem : (o : Op) → World srv W → o.Res → World srv W → Prop}
    {p : Code (Outcome Unit)} {s s' : World srv W} {out : Outcome (Option Bytes)}
    (h : Returns sem (do return (← p).noData) s out s') :
    ∃ a, Returns sem p s a s' ∧ out = a.noData := by
  obtain ⟨a, s₁, h₁, h₂⟩ := returns_bind_iff.mp h
  obtain ⟨rfl, rfl⟩ := returns_ret_iff.mp h₂
  exact ⟨a, h₁, rfl⟩

section Runs

variable {sid : W → Sid} {K : Set CString} [DecidablePred (· ∈ K)] {k : CString} {w : W}
  {s s' s₀ : World srv W} {g : Globals} {past : List (SessionCall srv W)} {cb : Callback}
  {out : Outcome (Option Bytes)}

/-- What holds between the callbacks: the records are those of workers that read keys in `K`, with
the paths of their last reads, nothing is below the data of the sessions, and the entries have
come about as those of a store. -/
structure Accounted (sid : W → Sid) (K : Set CString) [DecidablePred (· ∈ K)] (s₀ : World srv W)
    (past : List (SessionCall srv W)) (s : World srv W) : Prop where
  record : ∀ w, KeyRecord (sid w) K (s.memory w)
  read : ∀ w k, lastReadOf w past = some k → k ∈ K ∧ (s.memory w).path = sessionPath k
  leaf : ∀ k ∈ K, ¬ s.nodes.HasChild (sessionPath k)
  history : (s₀.entries K).History (past.filterMap SessionCall.event) (s.entries K)

/-- What a callback does to the entries is what its event does to a store. -/
theorem Accounted.history_call (h : Accounted sid K s₀ past s) (hK : SessionIds K)
    (hturn : InTurn K past w cb) (hret : Returns (soloSem w (sid w)) (cb.code (sid w)) s out s') :
    (s₀.entries K).History ((SessionCall.mk w cb out s' :: past).filterMap SessionCall.event)
      (s'.entries K) := by
  have hhistory := h.history
  cases cb with
  | psOpen =>
    obtain ⟨a, h₁, -⟩ := returns_noData hret
    obtain ⟨-, rfl⟩ := returns_ret_iff.mp h₁
    exact hhistory
  | psRead g k =>
    rcases returns_psRead_entries hK hturn hret (h.record w) with
      ⟨⟨message, rfl⟩, hsame⟩ | ⟨hout, hdrops⟩
    · rw [hsame]
      exact hhistory
    · have hread := hhistory.read k g.expirationTime hdrops
      rw [readOutcome_eq hK hturn] at hout
      cases hfind : (s.entries K).find g.expirationTime k with
      | some data =>
        rw [hfind] at hout hread
        subst hout
        exact hread
      | none =>
        rw [hfind] at hout hread
        subst hout
        exact hread
  | psWrite k val =>
    obtain ⟨a, h₁, rfl⟩ := returns_noData hret
    obtain ⟨hk, hpath⟩ := h.read w k hturn
    rcases returns_psWrite_entries hK hk hpath h₁ with ⟨rfl, n, hn, hentries⟩ | ⟨rfl, hsame⟩
    · have hput := hhistory.put k (some val) n.mtime
      rw [← hentries] at hput
      have hevent : SessionCall.event ⟨w, .psWrite k val, .success none, s'⟩ =
          some (.put k (some val) n.mtime) := by
        simp [SessionCall.event, hn]
      rw [Outcome.noData, List.filterMap_cons_some hevent]
      exact hput
    · rw [hsame]
      exact hhistory
  | psDestroy k =>
    obtain ⟨a, h₁, rfl⟩ := returns_noData hret
    obtain ⟨hk, hpath⟩ := h.read w k hturn
    rw [returns_psDestroy_entries hK hk hpath (h.leaf k hk) h₁]
    exact hhistory.remove k
  | psGc g =>
    obtain ⟨a, h₁, rfl⟩ := returns_noData hret
    exact hhistory.collect g.expirationTime (returns_psGc_entries h₁)
  | psClose =>
    obtain ⟨a, h₁, rfl⟩ := returns_noData hret
    obtain ⟨-, hdata⟩ := returns_lockOnly hK closeEffects_lockOnly.psClose h₁ (h.record w)
    rw [show s'.entries K = s.entries K from funext fun k => entries_congr (hdata k)]
    exact hhistory

omit [DecidablePred (· ∈ K)] in
/-- What a callback leaves in its worker's record as the path. -/
theorem path_callback (hK : SessionIds K) (hread : cb.ReadsIn K True)
    (hrecord : KeyRecord (sid w) K (s.memory w))
    (hret : Returns (soloSem w (sid w)) (cb.code (sid w)) s out s') :
    match cb, out with
    | .psRead _ _, .error _ => (s'.memory w).path = (s.memory w).path
    | .psRead _ k, _ => (s'.memory w).path = sessionPath k
    | _, _ => (s'.memory w).path = (s.memory w).path := by
  cases cb with
  | psRead g k =>
    rcases returns_psRead_solo hret with ⟨⟨message, rfl⟩, hpath⟩ | ⟨hout, hpath⟩
    · exact hpath
    · cases out with
      | error message => exact absurd hout.symm (readOutcome_ne_error g s _ message)
      | success a => exact hpath
      | failure => exact hpath
  | psOpen =>
    obtain ⟨a, h₁, -⟩ := returns_noData hret
    obtain ⟨-, rfl⟩ := returns_ret_iff.mp h₁
    rfl
  | psWrite k val =>
    obtain ⟨a, h₁, -⟩ := returns_noData hret
    exact congrArg (fun m => (m w).path) (returns_psWrite_solo h₁).1
  | psDestroy k =>
    obtain ⟨a, h₁, -⟩ := returns_noData hret
    exact congrArg (fun m => (m w).path) (returns_psDestroy_solo h₁).1
  | psGc g =>
    obtain ⟨a, h₁, -⟩ := returns_noData hret
    exact returns_psGc_solo h₁
  | psClose =>
    obtain ⟨a, h₁, -⟩ := returns_noData hret
    exact (returns_lockOnly hK closeEffects_lockOnly.psClose h₁ hrecord).1

omit [DecidablePred (· ∈ K)] in
theorem InTurn.readsIn (h : InTurn K past w cb) : cb.ReadsIn K True := by
  cases cb with
  | psRead g k => exact h
  | _ => trivial

/-- No node is made below the data of a session. -/
theorem Accounted.leaf_of_none (h : Accounted sid K s₀ past s) (hK : SessionIds K)
    (hnone : ∀ q, (∀ k ∈ K, ¬ OwnsNode k q) → s.nodes q = none → s'.nodes q = none) :
    ∀ k ∈ K, ¬ s'.nodes.HasChild (sessionPath k) := by
  rintro k hk ⟨x, hx, hchild⟩
  have hbefore : s.nodes (childOf (sessionPath k) x) = none :=
    not_not.mp fun hne => h.leaf k hk ⟨x, hx, hne⟩
  exact hchild (hnone _ (fun k' hk' => hK.not_ownsNode hk hk' hx) hbefore)

/-- A step of one worker leaves the others' records and what they have read last alone. -/
theorem Accounted.of_worker {past' : List (SessionCall srv W)} (h : Accounted sid K s₀ past s)
    (hrecord : KeyRecord (sid w) K (s'.memory w)) (hothers : ∀ v, v ≠ w → s'.memory v = s.memory v)
    (hread : ∀ k, lastReadOf w past' = some k → k ∈ K ∧ (s'.memory w).path = sessionPath k)
    (hlast : ∀ v, v ≠ w → lastReadOf v past' = lastReadOf v past)
    (hleaf : ∀ k ∈ K, ¬ s'.nodes.HasChild (sessionPath k))
    (hhistory : (s₀.entries K).History (past'.filterMap SessionCall.event) (s'.entries K)) :
    Accounted sid K s₀ past' s' := by
  refine ⟨fun v => ?_, fun v k hk => ?_, hleaf, hhistory⟩
  · by_cases hv : v = w
    · exact hv ▸ hrecord
    · exact hothers v hv ▸ h.record v
  · by_cases hv : v = w
    · subst hv
      exact hread k hk
    · rw [hothers v hv]
      exact h.read v k (hlast v hv ▸ hk)

theorem Accounted.call (h : Accounted sid K s₀ past s) (hK : SessionIds K)
    (hturn : InTurn K past w cb)
    (hret : Returns (soloSem w (sid w)) (cb.code (sid w)) s out s') :
    Accounted sid K s₀ (⟨w, cb, out, s'⟩ :: past) s' := by
  obtain ⟨hrecord, hothers, hnone⟩ :=
    returns_workerOp (performs_readsIn hturn.readsIn) hret (h.record w)
  refine h.of_worker hrecord hothers (fun k hlast => ?_) (fun v hv => if_neg (Ne.symm hv))
    (h.leaf_of_none hK hnone) (h.history_call hK hturn hret)
  have hpath := path_callback hK hturn.readsIn (h.record w) hret
  rw [lastReadOf, if_pos rfl] at hlast
  cases cb with
  | psRead g k' =>
    cases out with
    | error message => exact ⟨(h.read w k hlast).1, hpath.trans (h.read w k hlast).2⟩
    | _ =>
      obtain rfl : k' = k := Option.some.inj hlast
      exact ⟨hturn, hpath⟩
  | _ => exact ⟨(h.read w k hlast).1, hpath.trans (h.read w k hlast).2⟩

theorem Accounted.notify (h : Accounted sid K s₀ past s) (hK : SessionIds K)
    (hret : Returns (aloneSem w (sid w) .watcher) (lockWatcherFn (sid w)) s () s') :
    Accounted sid K s₀ past s' := by
  have hwatcher : Performs (WorkerOp (sid w) K True) (KnownResults (KeyRecord (sid w) K))
      (lockWatcherFn (sid w)) fun _ => True := performs_lockWatcherFn
  obtain ⟨hrecord, hothers, hnone⟩ := returns_workerOp hwatcher hret (h.record w)
  obtain ⟨hpath, hdata⟩ := returns_lockOnly hK lockEffects_lockOnly.lockWatcherFn hret (h.record w)
  refine h.of_worker hrecord hothers (fun k hlast => ?_) (fun _ _ => rfl)
    (h.leaf_of_none hK hnone) ?_
  · rw [hpath]
    exact h.read w k hlast
  · rw [show s'.entries K = s.entries K from funext fun k => entries_congr (hdata k)]
    exact h.history

theorem SessionRun.accounted (h : SessionRun sid K s₀ past s) (hK : SessionIds K)
    (hmemory : s₀.memory = fun _ => {})
    (hleaf : ∀ k ∈ K, ¬ s₀.nodes.HasChild (sessionPath k)) : Accounted sid K s₀ past s := by
  induction h with
  | start =>
    refine ⟨fun w => ?_, fun w k hlast => ?_, hleaf, .start⟩
    · rw [hmemory]
      exact keyRecord_initial
    · cases hlast
  | call w cb _ hturn hret ih => exact ih.call hK hturn hret
  | notify w _ hret ih => exact ih.notify hK hret

/-- **Sessions are kept.** When the callbacks of any workers run one after another, and none has
used a later limit before, a read that gets past its lock finds the value that was last written for
its key and not destroyed since, by whichever worker, unless it has expired: what `PS_GC` and the
other reads have removed cannot be told. -/
theorem session_kept {later before : List (SessionCall srv W)} {c : SessionCall srv W}
    (h : SessionRun sid K s₀ (later ++ c :: before) s) (hK : SessionIds K)
    (hmemory : s₀.memory = fun _ => {}) (hleaf : ∀ k ∈ K, ¬ s₀.nodes.HasChild (sessionPath k))
    (hc : c.callback = .psRead g k)
    (hlimit : ∀ a ∈ before, ∀ e ∈ a.event, ∀ l ∈ e.limit, l ≤ g.expirationTime) :
    (∃ message, c.outcome = .error message) ∨
      c.outcome =
        match (Expiring.written (s₀.entries K) (before.filterMap SessionCall.event)).find
          g.expirationTime k with
        | some data => .success data
        | none => .failure := by
  have hhistory := (h.accounted hK hmemory hleaf).history
  have hbefore : ∀ e ∈ before.filterMap SessionCall.event, ∀ l ∈ e.limit, l ≤ g.expirationTime := by
    intro e he
    obtain ⟨a, ha, hae⟩ := List.mem_filterMap.mp he
    exact hlimit a ha e hae
  obtain ⟨w, cb, out, s'⟩ := c
  obtain rfl : cb = .psRead g k := hc
  have hfound : ∀ found, SessionCall.event ⟨w, .psRead g k, out, s'⟩ =
      some (.read k g.expirationTime found) → found =
        (Expiring.written (s₀.entries K) (before.filterMap SessionCall.event)).find
          g.expirationTime k := by
    intro found hevent
    rw [List.filterMap_append, List.filterMap_cons_some hevent] at hhistory
    exact hhistory.found hbefore
  cases out with
  | error message => exact .inl ⟨message, rfl⟩
  | success data => exact .inr (by rw [← hfound (some data) rfl])
  | failure => exact .inr (by rw [← hfound none rfl])

end Runs

/-! ### A session of two workers -/

/-- Runs a callback of a worker at the given time. -/
def execAt (time : ℤ) (s : World treeServer Bool) (w : Bool) (cb : Callback) :
    Option (Outcome (Option Bytes) × World treeServer Bool) :=
  exec (fun o s => s.perform w (twoSids w) .main { choice := { time := time } } o) 300
    (cb.code (twoSids w)) s

/-- A callback of a worker at the given time, and what it leaves. -/
def callAt (time : ℤ) (s : World treeServer Bool) (w : Bool) (cb : Callback) :
    SessionCall treeServer Bool :=
  let x := (execAt time s w cb).getD (.failure, s)
  ⟨w, cb, x.1, x.2⟩

theorem SessionRun.callAt {K : Set CString} {s₀ s : World treeServer Bool}
    {past : List (SessionCall treeServer Bool)} (h : SessionRun twoSids K s₀ past s) (time : ℤ)
    (w : Bool) (cb : Callback) (hturn : InTurn K past w cb)
    (hx : (execAt time s w cb).isSome = true) :
    SessionRun twoSids K s₀ (callAt time s w cb :: past) (callAt time s w cb).after := by
  obtain ⟨x, hx⟩ := Option.isSome_iff_exists.mp hx
  have hret : Returns (soloSem w (twoSids w)) (cb.code (twoSids w)) s x.1 x.2 :=
    returns_of_exec (fun _ _ _ _ hp => ⟨_, hp⟩) hx
  simpa only [PhpZookeeper.callAt, hx, Option.getD_some] using h.call w cb hturn hret

/-- A worker reads `k`, of which there is no data. -/
def readNew : SessionCall treeServer Bool :=
  callAt 5000 twoWorkers.world false (.psRead { globalRequestTime := 5 } ['k'])

/-- It writes its data. -/
def wroteNew : SessionCall treeServer Bool := callAt 10000 readNew.after false (.psWrite ['k'] [1])

/-- It lets go of the lock. -/
def closedNew : SessionCall treeServer Bool := callAt 10000 wroteNew.after false .psClose

/-- Another worker collects old sessions. -/
def collectedOld : SessionCall treeServer Bool :=
  callAt 1445000 closedNew.after true (.psGc { globalRequestTime := 1445 })

/-- It reads `k`. -/
def readKept : SessionCall treeServer Bool :=
  callAt 1446000 collectedOld.after true (.psRead { globalRequestTime := 1446 } ['k'])

theorem sessionIds_k : SessionIds {['k']} where
  slash := by simp
  length := by simp
  lock := by simp
  valid := by
    rintro k rfl
    decide +kernel

/-- What one worker has written the other reads. -/
theorem session_kept_read :
    ((∃ message, readKept.outcome = .error message) ∨
      readKept.outcome =
        match (Expiring.written (twoWorkers.world.entries {['k']})
          ([collectedOld, closedNew, wroteNew, readNew].filterMap SessionCall.event)).find
            6000 ['k'] with
        | some data => .success data
        | none => .failure) ∧
      readKept.outcome = .success (some [1]) := by
  have hread : SessionRun twoSids {['k']} twoWorkers.world [readNew] readNew.after :=
    SessionRun.start.callAt _ _ _ rfl (by decide +kernel)
  have hwrite : SessionRun twoSids {['k']} twoWorkers.world [wroteNew, readNew] wroteNew.after :=
    hread.callAt _ _ _ (show lastReadOf false [readNew] = some ['k'] by decide +kernel)
      (by decide +kernel)
  have hclose : SessionRun twoSids {['k']} twoWorkers.world [closedNew, wroteNew, readNew]
      closedNew.after := hwrite.callAt _ _ _ trivial (by decide +kernel)
  have hgc : SessionRun twoSids {['k']} twoWorkers.world
      [collectedOld, closedNew, wroteNew, readNew] collectedOld.after :=
    hclose.callAt _ _ _ trivial (by decide +kernel)
  have hback : SessionRun twoSids {['k']} twoWorkers.world
      ([] ++ readKept :: [collectedOld, closedNew, wroteNew, readNew]) readKept.after :=
    hgc.callAt _ _ _ rfl (by decide +kernel)
  refine ⟨session_kept hback sessionIds_k rfl ?_ rfl ?_, by decide +kernel⟩
  · rintro k rfl hchild
    exact absurd ((TreeState.hasChild_iff twoWorkers.world.tree _).mpr hchild) (by decide +kernel)
  · decide +kernel

end PhpZookeeper
