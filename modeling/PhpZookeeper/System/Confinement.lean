import PhpZookeeper.System.Footprints
import PhpZookeeper.System.Policy

/-!
# What the session handler leaves alone

Any number of workers, whose callbacks are called in any order and whose requests may fail, lag
behind and be applied unseen: the nodes that a worker makes, changes and removes are those of keys
it has read itself (`Config.Reaches.confined`), whatever key `PS_WRITE` and `PS_DESTROY` are given;
`PS_GC` only removes nodes of the session directory. So nothing outside that directory is ever
touched, whatever a client sends as the id of its session (`Config.Reaches.confined_to_parent`).
-/

namespace PhpZookeeper

open Theory Prog

/-! ### What the workers do -/

/-- The operations of `PS_GC`. -/
def GcOp : Op → Prop
  | .zoo r => r.isRead = true ∨ ∃ x, '/' ∉ x ∧ r = .zooDelete (sessionPath x) (-1)
  | _ => False

/-- The operations of a worker that reads keys in `K`, and calls `PS_GC` only if `gc`. -/
def WorkerOp (session : Sid) (K : Set CString) (gc : Prop) (o : Op) : Prop :=
  KeyOp session K o ∨ gc ∧ GcOp o

/-- The callback reads a key in `K`, if it reads one, and is `PS_GC` only if `gc`; `PS_WRITE` and
`PS_DESTROY` may have any key. -/
def Callback.ReadsIn (K : Set CString) (gc : Prop) : Callback → Prop
  | .psRead _ key => key ∈ K
  | .psGc _ => gc
  | _ => True

variable {session : Sid} {K : Set CString} {gc : Prop}

theorem KeyRecord.workerOp {m : PhpZookeeperSession} (h : KeyRecord session K m) {o : Op}
    (ho : WorkerOp session K gc o) (th : Thread) : KeyRecord session K (o.effect th m) := by
  rcases ho with ho | ⟨-, ho⟩
  · exact h.effect ho th
  · cases o with
    | zoo r => exact h
    | _ => exact ho.elim

theorem gcEffects_workerOp {J : PhpZookeeperSession → Prop} (hgc : gc) :
    GcEffects (WorkerOp session K gc) (KnownResults J) where
  gcList := .inr ⟨hgc, .inl rfl⟩
  gcExists _ _ := .inr ⟨hgc, .inl rfl⟩
  gcDelete x hx := .inr ⟨hgc, .inr ⟨x, hx, rfl⟩⟩
  gcNames _ ha := ha.1

/-- **What a callback does**, whatever key it is given to write or to destroy. -/
theorem performs_readsIn {cb : Callback} (hcb : cb.ReadsIn K gc) :
    Performs (WorkerOp session K gc) (KnownResults (KeyRecord session K)) (cb.code session)
      fun _ => True := by
  have hkey : ∀ {α : Type} {p : Code α}, Performs (KeyOp session K)
      (KnownResults (KeyRecord session K)) p (fun _ => True) →
      Performs (WorkerOp session K gc) (KnownResults (KeyRecord session K)) p fun _ => True :=
    fun h => h.weaken (fun _ ho => .inl ho) fun _ _ h => h
  cases cb with
  | psOpen => exact .ret trivial
  | psRead g key => exact hkey ((handlerEffects_keyOp hcb).psRead g)
  | psWrite key val =>
    exact hkey ((dataEffects_keyOp.psWrite key val).bind fun _ _ => .ret trivial)
  | psDestroy key =>
    exact hkey ((dataEffects_keyOp.psDestroy key).bind fun _ _ => .ret trivial)
  | psGc g => exact ((gcEffects_workerOp hcb).psGc g).bind fun _ _ => .ret trivial
  | psClose =>
    have hclose : CloseEffects (KeyOp session K) (KnownResults (KeyRecord session K)) :=
      { lockEffects_keyOp.toUnlockEffects with
        efreePath := trivial
        lockDestroy := trivial
        mutexDestroy := trivial
        clearIsOwner := trivial
        clearIsLocked := trivial }
    exact hkey (hclose.psClose.bind fun _ _ => .ret trivial)

theorem performs_lockWatcherFn :
    Performs (WorkerOp session K gc) (KnownResults (KeyRecord session K)) (lockWatcherFn session)
      fun _ => True :=
  lockEffects_keyOp.lockWatcherFn.weaken (fun _ ho => .inl ho) fun _ _ h => h

/-- There is no node at `q`, which is the path of an entry of the session directory. -/
def Collected (t : Nodes) (q : CString) : Prop :=
  t q = none ∧ validPath q false = true ∧ ∃ x, '/' ∉ x ∧ q = sessionPath x

/-- **What a request leaves alone**: a node of no key in `K`, unless `PS_GC` removes it. -/
theorem WorkerOp.frame {r : Req} {a : Reply} {t t' : Nodes} {q : CString}
    (ho : WorkerOp session K gc (.zoo r)) (hans : Answers session r t a t')
    (hq : ∀ k ∈ K, ¬ OwnsNode k q) :
    (t' q).map Znode.content = (t q).map Znode.content ∨
      gc ∧ Collected t' q := by
  by_cases htouch : r.Valid = true ∧ r.MayTouch q
  swap
  · left
    by_cases hv : r.Valid = true
    · exact hans.frame fun h => htouch ⟨hv, h⟩
    · rw [(hans.of_not_valid (by simpa using hv)).2]
  obtain ⟨hv, hmay⟩ := htouch
  rcases ho with ho | ⟨hgc, hread | ⟨x, hx, rfl⟩⟩
  · obtain ⟨k, hk, hfor⟩ := ho hv
    exact absurd (hfor.ownsNode hv hmay) (hq k hk)
  · left
    rw [hans.of_isRead hread]
  · obtain rfl : q = sessionPath x := hmay
    rcases hans.zooDelete with ⟨n, k, -, -, -, -, hn⟩ | ⟨hn, -⟩
    · exact .inr ⟨hgc, by rw [hn, Function.update_self], hv, x, hx, rfl⟩
    · exact .inl (by rw [hn])

/-! ### The session directory -/

/-- No component is empty, `.` or `..`. -/
def ProperNames (s : CString) : Prop :=
  ∀ x ∈ components [] s, x ≠ [] ∧ x ≠ ['.'] ∧ x ≠ ['.', '.']

/-- The node lies in the session directory, or below. -/
def InParentNode (q : CString) : Prop :=
  ∃ s, q = childOf phpZkParentNode s ∧ ProperNames s

theorem properNames_append {s t : CString} :
    ProperNames (s ++ '/' :: t) ↔ ProperNames s ∧ ProperNames t := by
  simp only [ProperNames, components_append, List.forall_mem_append]

theorem components_of_notMem {x : CString} (cur : CString) (hx : '/' ∉ x) :
    components cur x = [cur.reverse ++ x] := by
  induction x generalizing cur with
  | nil => simp [components]
  | cons c x ih =>
    simp only [List.mem_cons, not_or] at hx
    rw [components, if_neg (Ne.symm hx.1), ih _ hx.2]
    simp

theorem inParentNode_of_validPath {s : CString}
    (h : validPath (childOf phpZkParentNode s) false = true) :
    InParentNode (childOf phpZkParentNode s) := by
  refine ⟨s, rfl, ?_⟩
  have hpath : childOf phpZkParentNode s = '/' :: ("php-sessid".toList ++ '/' :: s) := rfl
  rw [hpath] at h
  simp only [validPath, Bool.false_eq_true, if_false, components_append, List.all_append,
    Bool.and_eq_true, List.all_eq_true] at h
  intro x hx
  have hcomp := h.1.2 x hx
  simpa [and_assoc] using hcomp

/-- The nodes of a key lie in the session directory, or below. -/
theorem OwnsNode.inParentNode {key q : CString} (h : OwnsNode key q) : InParentNode q := by
  rcases h with hpath | ⟨hvalid, session, x, hx, rfl⟩
  · obtain ⟨s, hs⟩ : ∃ s, q = childOf phpZkParentNode s := by
      rcases hpath.1 with rfl | rfl
      · exact ⟨_, sessionPath_eq key⟩
      · exact ⟨_, lockPath_eq key⟩
    subst hs
    exact inParentNode_of_validPath hpath.2
  · have hdir := lockPath_eq key
    generalize (key ++ "-lock".toList).take 505 = s at hdir
    rw [hdir] at hvalid ⊢
    obtain ⟨s', hs', hproper⟩ := inParentNode_of_validPath hvalid
    obtain rfl := (childOf_left_inj _).mp hs'
    refine ⟨s ++ '/' :: x, by simp [childOf], properNames_append.mpr ⟨hproper, ?_⟩⟩
    -- the prefix of a client is longer than `..`
    have hlen := hx.1.length_le
    rw [length_lockPrefix] at hlen
    intro y hy
    rw [components_of_notMem _ hx.2] at hy
    obtain rfl : y = x := by simpa using hy
    refine ⟨?_, ?_, ?_⟩ <;> rintro rfl <;> simp at hlen

/-! ### Runs -/

section Runs

variable {srv : Server} {W : Type} [DecidableEq W] {sid : W → Sid} {T : srv.State}
  {c c' : Config srv W} {l : Label srv W}

/-- A thread that keeps a policy changes the nodes by a request that is allowed, or not at all. -/
theorem Policy.advance_nodes {P : Policy W} {α : Type} {s s' : World srv W} {w : W} {th : Thread}
    {d : Decision srv} {p p' : Code α} {Q : α → Prop}
    (h : s.advance w (sid w) th d p = some (p', s')) (hp : Performs (P.op w) (P.Known w) p Q) :
    s'.nodes = s.nodes ∨
      ∃ r a, P.op w (.zoo r) ∧ Answers (sid w) r s.nodes a s'.nodes := by
  cases p with
  | ret a => cases h
  | op o k =>
    obtain ⟨⟨r, s₁⟩, hperf, hk⟩ := Option.map_eq_some_iff.mp h
    obtain ⟨rfl, rfl⟩ := Prod.mk.inj hk
    rcases World.perform_nodes hperf with ⟨htree, -⟩ | ⟨req, a, rfl, hans, -⟩
    · exact .inl (by unfold World.nodes; rw [htree])
    · exact .inr ⟨req, a, hp.op_inv.1, hans⟩
  | iter body b k =>
    obtain ⟨rfl, rfl⟩ := Prod.mk.inj (Option.some.inj h)
    exact .inl rfl

/-- **What a step does to the nodes**: a request that its worker may make, or nothing. -/
theorem Policy.step_nodes {P : Policy W} (h : P.Holds c) (hstep : c.step sid l = some c') :
    c'.world.nodes = c.world.nodes ∨
      ∃ r a, P.op l.worker (.zoo r) ∧ Answers (sid l.worker) r c.world.nodes a c'.world.nodes := by
  cases l with
  | main w d =>
    simp only [Config.step] at hstep
    split at hstep
    · next cb p hmain =>
      obtain ⟨⟨p', s'⟩, hadv, rfl⟩ := Option.map_eq_some_iff.mp hstep
      exact Policy.advance_nodes hadv (h.main w _ hmain)
    · cases hstep
  | watcher w d =>
    simp only [Config.step] at hstep
    split at hstep
    · next p hwatcher =>
      obtain ⟨⟨p', s'⟩, hadv, rfl⟩ := Option.map_eq_some_iff.mp hstep
      exact Policy.advance_nodes hadv (h.watcher w _ hwatcher)
    · cases hstep
  | start w cb =>
    simp only [Config.step] at hstep
    split at hstep
    · obtain rfl := Option.some.inj hstep
      exact .inl rfl
    · cases hstep
  | finish w =>
    simp only [Config.step] at hstep
    split at hstep
    · obtain rfl := Option.some.inj hstep
      exact .inl rfl
    · cases hstep
  | sessionEvent w =>
    simp only [Config.step] at hstep
    split at hstep
    · cases hstep
    · obtain rfl := Option.some.inj hstep
      exact .inl rfl
  | notify w =>
    simp only [Config.step] at hstep
    split at hstep
    · split at hstep
      · cases hstep
      · obtain rfl := Option.some.inj hstep
        exact .inl rfl
    · cases hstep
  | watcherDone w =>
    simp only [Config.step] at hstep
    split at hstep
    · obtain rfl := Option.some.inj hstep
      exact .inl rfl
    · cases hstep

variable {K : W → Set CString} {gc : W → Prop}

/-- Each worker reads keys in its `K`, and calls `PS_GC` only if its `gc`. -/
def confinement (sid : W → Sid) (K : W → Set CString) (gc : W → Prop) : Policy W where
  op w := WorkerOp (sid w) (K w) (gc w)
  record w := KeyRecord (sid w) (K w)

omit [DecidableEq W] in
theorem confinement_sound :
    (confinement sid K gc).Sound sid fun w cb => cb.ReadsIn (K w) (gc w) where
  effect ho hm := hm.workerOp ho _
  change _ _ _ := trivial
  answered _ _ := trivial
  failed _ _ := trivial
  callback hcb := (performs_readsIn hcb).weaken (fun _ h => h) fun _ _ h => h.knownResults
  watcher _ := performs_lockWatcherFn.weaken (fun _ h => h) fun _ _ h => h.knownResults

/-- **One step**, of a worker that may be in the middle of anything. -/
theorem confined_step (h : (confinement sid K gc).Holds c) (hstep : c.step sid l = some c')
    {q : CString} (hq : ∀ k ∈ K l.worker, ¬ OwnsNode k q) :
    (c'.world.nodes q).map Znode.content = (c.world.nodes q).map Znode.content ∨
      gc l.worker ∧ Collected c'.world.nodes q := by
  rcases Policy.step_nodes h hstep with hsame | ⟨r, a, hop, hans⟩
  · exact .inl (by rw [hsame])
  · exact WorkerOp.frame hop hans hq

theorem confinement_of_reaches (h : Config.Reaches sid
    (Policy.Calls fun w cb => cb.ReadsIn (K w) (gc w)) { world := { tree := T } } c) :
    (confinement sid K gc).Holds c :=
  Policy.holds_of_reaches confinement_sound
    (Policy.holds_initial trivial fun _ => keyRecord_initial) h

/-- A node of no key at all, which is no entry of the session directory either. -/
theorem untouched_of_reaches (h : Config.Reaches sid (fun _ _ => True) { world := { tree := T } } c)
    {q : CString} (hq : ∀ k, ¬ OwnsNode k q)
    (hentry : ∀ x, validPath (sessionPath x) false = true → q ≠ sessionPath x) :
    (c.world.nodes q).map Znode.content = (srv.nodes T q).map Znode.content := by
  induction h with
  | refl => rfl
  | @step c c' l hreach _ hstep ih =>
    have hcalls : Config.Reaches sid
        (Policy.Calls fun _ cb => cb.ReadsIn Set.univ True) { world := { tree := T } } c :=
      hreach.mono fun _ _ _ _ cb _ => by cases cb <;> trivial
    rcases confined_step (confinement_of_reaches hcalls) hstep fun k _ => hq k with
      hsame | ⟨-, -, hv, x, -, rfl⟩
    · exact hsame.trans ih
    · exact absurd rfl (hentry x hv)

/-- **Nothing outside the session directory is touched**, whatever the workers are asked to read,
write and destroy, and whatever fails. -/
theorem Config.Reaches.confined_to_parent
    (h : Config.Reaches sid (fun _ _ => True) { world := { tree := T } } c) {q : CString}
    (hq : ¬ InParentNode q) :
    (c.world.nodes q).map Znode.content = (srv.nodes T q).map Znode.content := by
  refine untouched_of_reaches h (fun k hk => hq hk.inParentNode) fun x hv heq => ?_
  subst heq
  rw [sessionPath_eq] at hv hq
  exact hq (inParentNode_of_validPath hv)

end Runs

/-! ### A run -/

/-- The id of a session that would lead out of the session directory. -/
def strayKey : CString := "../k".toList

/-- The second worker reads `k`, and writes: its `create` is applied and the reply lost. The first
one reads the other id, which the library does not accept, and is about to write for `k`. -/
def strayingSteps : List (Label treeServer Bool) :=
  callbackSteps true (.psRead {} ['k']) ++ .start true (.psWrite ['k'] [1]) :: mainSteps true 4 ++
    .main true { choice := {}, fate := .failed .connectionLoss true } :: mainSteps true 8 ++
    .finish true :: callbackSteps false (.psRead { sessionLock := false } strayKey) ++
    .start false (.psWrite ['k'] [2]) :: mainSteps false 4

/-- Nor is there a node where the path of the other id would lead. -/
theorem confined_to_parent_straying :
    ((twoWorkers.run twoSids strayingSteps).world.nodes "/k".toList).map Znode.content =
      (treeServer.nodes twoWorkers.world.tree "/k".toList).map Znode.content := by
  refine Config.Reaches.confined_to_parent (.run .refl (fun _ _ => trivial) strayingSteps) ?_
  rintro ⟨s, hs, -⟩
  have htake : ['/', 'k'] = ['/', 'p'] := congrArg (List.take 2) hs
  exact absurd htake (by decide)

end PhpZookeeper
