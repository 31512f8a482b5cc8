import PhpZookeeper.Session.Keys
import PhpZookeeper.System.Places
import PhpZookeeper.System.Turns

/-!
# Holding the lock of a session

What the main thread and `lock_watcher_fn` of each worker rely on and promise when the workers open,
read, write and close one session (`cycleContract`), and that `zkr_lock_lock` keeps it. A worker
that has been told that it owns the lock is the first of the queue in every state it may still see
(`InTurn`), and stays so until its own `PS_CLOSE`: `pmutex` keeps `zkr_lock_operation` from giving
the node up, as long as `zkr_lock_init` does not make it anew under a `lock_watcher_fn` that holds
it.
-/

namespace PhpZookeeper

open Theory Prog Status

variable {srv : Server} {W : Type}

/-! ### Requests that are answered -/

/-- The request is answered, from a state that the worker may see. -/
structure Decision.Answered (d : Decision srv) (w : W) (s : World srv W) : Prop where
  fate : d.fate = .answered
  lag : d.lag ≤ (s.views w).length

section Perform

variable [DecidableEq W] {s s' : World srv W} {w : W} {sid : Sid} {th : Thread} {d : Decision srv}
  {o : Op} {r : o.Res} {req : Req} {a : Reply}

/-- A read that is answered from the state `T`: the worker does not see older ones any more. -/
theorem World.perform_read (h : s.perform w sid th d (.zoo req) = some (a, s'))
    (hread : req.isRead = true) (hd : d.Answered w s) :
    ∃ T b, (s.tree :: s.views w)[d.lag]? = some T ∧ Answers sid req (srv.nodes T) b (srv.nodes T) ∧
      a = b.received req ∧ s'.tree = s.tree ∧
      s'.views = Function.update s.views w ((s.views w).take d.lag) := by
  have hreq : s.request w sid d req = (a, s') := Option.some.inj h
  have hseen : (s.tree :: s.views w)[d.lag]? = some (s.seen w d.lag) := by
    have hlt : d.lag < (s.tree :: s.views w).length := Nat.lt_succ_of_le hd.lag
    unfold World.seen
    rw [List.getElem?_eq_getElem hlt, Option.getD_some]
  unfold World.request World.look at hreq
  rw [if_pos hread, hd.fate] at hreq
  obtain ⟨rfl, rfl⟩ := Prod.mk.inj hreq
  have hans := srv.documented d.choice sid req (s.seen w d.lag)
  refine ⟨_, _, hseen, ?_, rfl, tree_watch .., views_watch ..⟩
  have hsame := hans.of_isRead hread
  rwa [hsame] at hans

/-- A change that is answered. -/
theorem World.perform_change (h : s.perform w sid th d (.zoo req) = some (a, s'))
    (hread : req.isRead = false) (hd : d.Answered w s) :
    ∃ b, Answers sid req s.nodes b s'.nodes ∧ a = b.received req ∧
      s'.views = fun v => if v = w then [] else s.tree :: s.views v := by
  have hreq : s.request w sid d req = (a, s') := Option.some.inj h
  unfold World.request at hreq
  rw [if_neg (by simp [hread]), hd.fate] at hreq
  obtain ⟨rfl, rfl⟩ := Prod.mk.inj hreq
  exact ⟨_, by rw [nodes_applied]; exact srv.documented d.choice sid req s.tree, rfl,
    views_applied ..⟩

/-- What is no request leaves the nodes, and what is seen of them. -/
theorem World.perform_inside (h : s.perform w sid th d o = some (r, s'))
    (ho : ∀ req, o ≠ .zoo req) : s'.tree = s.tree ∧ s'.views = s.views := by
  cases o with
  | zoo req => exact absurd rfl (ho req)
  | pthreadMutexLock =>
    simp only [perform] at h
    split at h
    · obtain rfl := congrArg Prod.snd (Option.some.inj h)
      exact ⟨rfl, rfl⟩
    · cases h
  | fault => cases h
  | _ =>
    obtain rfl := congrArg Prod.snd (Option.some.inj h)
    exact ⟨rfl, rfl⟩

end Perform

namespace Cycles

/-! ### The invariant -/

/-- The worker is the first of the queue in each state that it may still see. -/
def InTurn (sid : W → Sid) (key : CString) (w : W) (s : World srv W) : Prop :=
  ∀ T ∈ s.tree :: s.views w, (srv.nodes T).Serves (lockPath key) (sid w)

/-- The worker may remember `x` as the owner's name. -/
structure Right (sid : W → Sid) (key : CString) (w : W) (x : CString) (s : World srv W) :
    Prop where
  issued : Issued (lockPath key) s.nodes x
  held : ∀ T ∈ s.tree :: s.views w, HeldOk (sid w) (lockPath key) (srv.nodes T) x

/-- There is a node of the name `x` in the lock directory. -/
def Present (key x : CString) (s : World srv W) : Prop :=
  s.nodes (childOf (lockPath key) x) ≠ none

/-- `PS_CLOSE` of the worker holds `pmutex`. -/
def Leaving (w : W) (s : World srv W) : Prop :=
  s.pmutex w = some .main ∧ (s.memory w).isLocked = true

/-- What is true of a worker's record. -/
structure RecordInv (sid : W → Sid) (key : CString) (w : W) (s : World srv W) : Prop where
  lockPath : ∀ p ∈ (s.memory w).lock.path, p = lockPath key
  own : ∀ x ∈ (s.memory w).lock.id, OwnName (sid w) x
  id : ∀ x ∈ (s.memory w).lock.id, Present key x s ∨ Leaving w s
  ownerid : ∀ x ∈ (s.memory w).lock.ownerid, Right sid key w x s

/-- What is true whoever acts. -/
structure CycleInv (sid : W → Sid) (key : CString) (s : World srv W) : Prop where
  queue : ∃ q, IsQueue s.nodes (lockPath key) q
  views : ∀ w, ∀ T ∈ s.views w, ∃ q, IsQueue (srv.nodes T) (lockPath key) q
  /-- What a worker sees, later states first. -/
  seen : ∀ w, (s.tree :: s.views w).Pairwise fun T' T =>
    Earlier (sid w) key (srv.nodes T) (srv.nodes T')
  parent : s.nodes.IsDirectory phpZkParentNode
  absent : validPath (sessionPath key) false = false → s.nodes (sessionPath key) = none
  record : ∀ w, RecordInv sid key w s

/-- What a step of the worker `w` makes of the nodes, and of what is seen of them. -/
structure Moves (sid : W → Sid) (key : CString) (w : W) (s s' : World srv W) : Prop where
  turn : Turn (sid w) key s.nodes s'.nodes
  views : s'.tree = s.tree ∧ (∀ v, (s'.views v).Sublist (s.views v)) ∨
    ∀ v, s'.views v = [] ∨ v ≠ w ∧ s'.views v = s.tree :: s.views v

section Moves

variable {sid : W → Sid} {key x : CString} {v w : W} {s s' : World srv W}

theorem CycleInv.exists_queue (h : CycleInv sid key s) {T : srv.State}
    (hT : T ∈ s.tree :: s.views w) : ∃ q, IsQueue (srv.nodes T) (lockPath key) q := by
  rcases List.mem_cons.mp hT with rfl | hT
  · exact h.queue
  · exact h.views w T hT

/-- What a worker sees after a step is the new state, or what it has seen. -/
theorem Moves.mem_views (h : Moves sid key w s s') {T : srv.State} (hT : T ∈ s'.views v) :
    T ∈ s.tree :: s.views v := by
  rcases h.views with ⟨-, hsub⟩ | hviews
  · exact List.mem_cons_of_mem _ ((hsub v).subset hT)
  · rcases hviews v with hnil | ⟨-, hcons⟩
    · rw [hnil] at hT
      cases hT
    · rwa [hcons] at hT

/-- The order in which a worker has seen the states. -/
theorem Moves.seen (h : Moves sid key w s s') (hsid : Function.Injective sid)
    (hinv : CycleInv sid key s) (v : W) : (s'.tree :: s'.views v).Pairwise fun T' T =>
      Earlier (sid v) key (srv.nodes T) (srv.nodes T') := by
  have hseen := hinv.seen v
  rcases h.views with ⟨htree, hsub⟩ | hviews
  · rw [htree]
    exact hseen.sublist ((hsub v).cons_cons _)
  · rcases hviews v with hnil | ⟨hne, hcons⟩
    · rw [hnil]
      exact List.pairwise_singleton ..
    · rw [hcons]
      refine List.pairwise_cons.mpr ⟨fun T hT => ?_, hseen⟩
      obtain ⟨q, hq⟩ := hinv.queue
      have hother : sid v ≠ sid w := fun heq => hne (hsid heq)
      rcases List.mem_cons.mp hT with rfl | hT
      · exact (Earlier.refl ..).turn h.turn hq hother
      · exact ((List.pairwise_cons.mp hseen).1 T hT).turn h.turn hq hother

/-- A name that may be remembered stays so. -/
theorem Right.moves (hx : Right sid key v x s) (hinv : CycleInv sid key s)
    (h : Moves sid key w s s') : Right sid key v x s' where
  issued := hx.issued.turn h.turn
  held T hT := by
    rcases List.mem_cons.mp hT with rfl | hT
    · obtain ⟨q, hq⟩ := hinv.queue
      exact (hx.held s.tree List.mem_cons_self).turn hx.issued h.turn hq
    · exact hx.held T (h.mem_views hT)

/-- The worker's nodes stay. -/
def Kept (sid : W → Sid) (key : CString) (v : W) (s s' : World srv W) : Prop :=
  ∀ x, OwnName (sid v) x → Present key x s → Present key x s'

theorem Moves.kept_of_ne (h : Moves sid key w s s') (hsid : Function.Injective sid)
    (hinv : CycleInv sid key s) (hne : v ≠ w) : Kept sid key v s s' := by
  obtain ⟨q, hq⟩ := hinv.queue
  exact fun x hx => (h.turn.own_of_ne hq (fun heq => hne (hsid heq)) hx).mp

/-- A worker is in turn as long as its nodes stay. -/
theorem InTurn.moves (hv : InTurn sid key v s) (h : Moves sid key w s s')
    (hkept : Kept sid key v s s') : InTurn sid key v s' := by
  intro T hT
  rcases List.mem_cons.mp hT with rfl | hT
  · exact (hv s.tree List.mem_cons_self).turn h.turn hkept
  · exact hv T (h.mem_views hT)

theorem InTurn.serves (hv : InTurn sid key v s) : s.nodes.Serves (lockPath key) (sid v) :=
  hv s.tree List.mem_cons_self

/-- The data stays as it is while another worker is in turn. -/
theorem Moves.held_of_ne (h : Moves sid key w s s') (hsid : Function.Injective sid)
    (hv : s.nodes.Serves (lockPath key) (sid v)) (hne : v ≠ w) :
    s'.nodes.held (sessionPath key) = s.nodes.held (sessionPath key) := by
  rcases h.turn.data with hdata | ⟨hw, -⟩
  · exact hdata
  · exact absurd (hsid (hv.unique hw)) hne

/-- **The invariant**, over a step of the worker `w` that leaves its record in order. -/
theorem CycleInv.moves (hinv : CycleInv sid key s) (h : Moves sid key w s s')
    (hsid : Function.Injective sid) (hothers : ∀ v, v ≠ w → s'.memory v = s.memory v)
    (hrecord : RecordInv sid key w s') : CycleInv sid key s' where
  queue := by
    obtain ⟨q, hq⟩ := hinv.queue
    obtain ⟨q', -, hq'⟩ := h.turn.queue q hq
    exact ⟨q', hq'⟩
  views v T hT := hinv.exists_queue (h.mem_views hT)
  seen := h.seen hsid hinv
  parent := hinv.parent.of_held h.turn.parent
  absent hv := by
    rcases h.turn.data with hdata | ⟨-, hvalid⟩
    · unfold Nodes.held at hdata
      rw [hinv.absent hv, Option.map_none, Option.map_eq_none_iff] at hdata
      exact hdata
    · rw [hv] at hvalid
      cases hvalid
  record v := by
    by_cases hv : v = w
    · rwa [hv]
    · obtain ⟨hpath, hown, hid, hownerid⟩ := hinv.record v
      have hkept := h.kept_of_ne hsid hinv hv
      refine ⟨?_, ?_, fun x hx => ?_, fun x hx => ?_⟩
      · rwa [hothers v hv]
      · rwa [hothers v hv]
      · unfold Leaving World.pmutex
        rw [hothers v hv] at hx ⊢
        exact (hid x hx).imp_left (hkept x (hown x hx))
      · rw [hothers v hv] at hx
        exact (hownerid x hx).moves hinv h

end Moves

/-! ### What the threads rely on -/

/-- A thread that holds `pmutex` is left alone. -/
def LeftAlone (sid : W → Sid) (key : CString) (w : W) (th : Thread) (s s' : World srv W) : Prop :=
  s.pmutex w = some th → s'.pmutex w = some th ∧
    (s'.memory w).lock.id = (s.memory w).lock.id ∧ Kept sid key w s s'

/-- What a worker's main thread can always rely on: while the worker is in turn, nobody else changes
the data. -/
structure Quiet (sid : W → Sid) (key : CString) (w : W) (s s' : World srv W) : Prop where
  isLocked : (s'.memory w).isLocked = (s.memory w).isLocked
  path : (s'.memory w).path = (s.memory w).path
  pmutex : s.pmutex w ≠ some .main → s'.pmutex w ≠ some .main
  inTurn : InTurn sid key w s → InTurn sid key w s' ∧
    s'.nodes.held (sessionPath key) = s.nodes.held (sessionPath key)

/-- What is asked of an operation of the callback `cb`: `pmutex` is made anew only when
`lock_watcher_fn` does not hold it, the numbers stay below 2³¹, and the data that is read has not
expired. -/
structure Allowed (key : CString) (w : W) (cb : Option Callback) (o : Op) (s s' : World srv W) :
    Prop where
  init : o.Inits → s.pmutex w ≠ some .watcher
  bounded : ∀ d, s'.nodes (lockPath key) = some d → d.cseq ≤ 2 ^ 31
  unexpired : ∀ g k n, cb = some (.psRead g k) → s.nodes (sessionPath key) = some n →
    g.expirationTime ≤ n.mtime

/-- What the callback `cb` does to the data, and to the worker's nodes: only `PS_WRITE` changes the
data, and only `PS_CLOSE` deletes a node of the worker's. -/
structure Effect (sid : W → Sid) (key : CString) (w : W) (cb : Option Callback)
    (s s' : World srv W) : Prop where
  data : s'.nodes.held (sessionPath key) = s.nodes.held (sessionPath key) ∨
    ∃ k val, cb = some (.psWrite k val) ∧ s'.stored key = some (some val)
  kept : cb = some .psClose ∨ Kept sid key w s s'

variable [DecidableEq W]

/-- What a thread of the worker `w` relies on, and what it promises, while it runs the callback
`cb`. -/
def cycleContract (sid : W → Sid) (key : CString) (w : W) (th : Thread) (cb : Option Callback) :
    Contract Op.Res (World srv W) where
  sem o s r s' := CycleInv sid key s ∧ Allowed key w cb o s s' ∧
    ∃ d, d.Answered w s ∧ s.perform w (sid w) th d o = some (r, s')
  rely o s s' := LeftAlone sid key w th s s' ∧
    (∀ x, o = some (.store (.lockOwnerid (some x))) → Right sid key w x s →
      Right sid key w x s') ∧ (th = .main → Quiet sid key w s s')
  guar _ s _ s' := CycleInv sid key s' ∧ Moves sid key w s s' ∧
    (∀ th', th' ≠ th → LeftAlone sid key w th' s s') ∧ Effect sid key w cb s s' ∧
    (th = .watcher → Quiet sid key w s s')

section Operations

variable {sid : W → Sid} {key x : CString} {w : W} {th : Thread} {cb : Option Callback}
  {s s' : World srv W} {d : Decision srv} {o : Op} {r : o.Res}

theorem memory_of_perform (hperf : s.perform w (sid w) th d o = some (r, s')) :
    s'.memory w = o.effect th (s.memory w) := by
  rw [World.perform_memory hperf, Function.update_self]

theorem memory_of_ne (hperf : s.perform w (sid w) th d o = some (r, s')) {v : W} (hv : v ≠ w) :
    s'.memory v = s.memory v := by
  rw [World.perform_memory hperf, Function.update_of_ne hv]

theorem pmutex_of_perform (hperf : s.perform w (sid w) th d o = some (r, s')) :
    s'.pmutex w = (o.effect th (s.memory w)).lock.pmutex := by
  rw [World.pmutex, memory_of_perform hperf]

/-- What an operation makes of the nodes. -/
theorem moves_of_perform (hkey : ShortKey key) (hperf : s.perform w (sid w) th d o = some (r, s'))
    (hd : d.Answered w s) (hbound : ∀ d, s'.nodes (lockPath key) = some d → d.cseq ≤ 2 ^ 31)
    (ho : ∀ req, o = .zoo req → TurnReq (sid w) key s.nodes req) : Moves sid key w s s' := by
  by_cases hzoo : ∃ req, o = .zoo req
  · obtain ⟨req, rfl⟩ := hzoo
    cases hread : req.isRead with
    | true =>
      obtain ⟨T, b, -, -, -, htree, hviews⟩ := World.perform_read hperf hread hd
      refine ⟨?_, .inl ⟨htree, fun v => ?_⟩⟩
      · rw [show s'.nodes = s.nodes from congrArg srv.nodes htree]
        exact .refl ..
      · rw [hviews]
        by_cases hv : v = w
        · rw [hv, Function.update_self]
          exact List.take_sublist ..
        · rw [Function.update_of_ne hv]
    | false =>
      obtain ⟨b, hans, -, hviews⟩ := World.perform_change hperf hread hd
      refine ⟨hans.turn (ho req rfl) hkey hbound, .inr fun v => ?_⟩
      rw [hviews]
      by_cases hv : v = w
      · exact .inl (if_pos hv)
      · exact .inr ⟨hv, if_neg hv⟩
  · obtain ⟨htree, hviews⟩ := World.perform_inside hperf fun req hreq => hzoo ⟨req, hreq⟩
    refine ⟨?_, .inl ⟨htree, fun v => by rw [hviews]⟩⟩
    rw [show s'.nodes = s.nodes from congrArg srv.nodes htree]
    exact .refl ..

/-- An operation that deletes no node of the worker's. -/
theorem kept_of_perform (hperf : s.perform w (sid w) th d o = some (r, s'))
    (ho : ∀ req, o = .zoo req → ∀ p version, req ≠ .zooDelete p version) :
    Kept sid key w s s' := by
  intro x _ hx
  rcases World.perform_nodes hperf with ⟨htree, -⟩ | ⟨req, a, hreq, hans, -⟩
  · unfold Present
    rwa [show s'.nodes = s.nodes from congrArg srv.nodes htree]
  · exact hans.kept (ho req hreq _) hx

/-- The thread that holds `pmutex` disturbs nobody but the worker's own main thread. -/
theorem guar_of_holding (h : s.pmutex w = some th) (hinv : CycleInv sid key s')
    (hmoves : Moves sid key w s s') (heffect : Effect sid key w cb s s')
    (hquiet : th = .watcher → Quiet sid key w s s') :
    (cycleContract sid key w th cb : Contract Op.Res (World srv W)).guar o s r s' := by
  refine ⟨hinv, hmoves, fun th' hne hth' => ?_, heffect, hquiet⟩
  rw [h, Option.some.injEq] at hth'
  exact absurd hth'.symm hne

omit [DecidableEq W] in
/-- What the watcher's operations leave alone. -/
theorem quiet_of_moves (hmoves : Moves sid key w s s') (hkept : Kept sid key w s s')
    (hheld : s'.nodes.held (sessionPath key) = s.nodes.held (sessionPath key))
    (hlocked : (s'.memory w).isLocked = (s.memory w).isLocked)
    (hpath : (s'.memory w).path = (s.memory w).path)
    (hpmutex : s.pmutex w ≠ some .main → s'.pmutex w ≠ some .main) : Quiet sid key w s s' :=
  ⟨hlocked, hpath, hpmutex, fun hturn => ⟨hturn.moves hmoves hkept, hheld⟩⟩

/-- What an operation leaves of the lock in the record. -/
structure SameLock (m m' : PhpZookeeperSession) : Prop where
  path : m'.lock.path = m.lock.path
  id : m'.lock.id = m.lock.id
  ownerid : m'.lock.ownerid = m.lock.ownerid
  pmutex : m'.lock.pmutex = m.lock.pmutex
  isLocked : m'.isLocked = m.isLocked

theorem SameLock.refl (m : PhpZookeeperSession) : SameLock m m := ⟨rfl, rfl, rfl, rfl, rfl⟩

omit [DecidableEq W] in
/-- A record stays in order, when its lock and the worker's nodes stay. -/
theorem RecordInv.same (h : RecordInv sid key w s) (hinv : CycleInv sid key s)
    (hmoves : Moves sid key w s s') (hkept : Kept sid key w s s')
    (hlock : SameLock (s.memory w) (s'.memory w)) : RecordInv sid key w s' := by
  refine ⟨?_, ?_, fun x hx => ?_, fun x hx => ?_⟩
  · rw [hlock.path]
    exact h.lockPath
  · rw [hlock.id]
    exact h.own
  · rw [hlock.id] at hx
    refine (h.id x hx).imp (hkept x (h.own x hx)) fun hleaving => ⟨?_, ?_⟩
    · exact hlock.pmutex.trans hleaving.1
    · exact hlock.isLocked.trans hleaving.2
  · rw [hlock.ownerid] at hx
    exact (h.ownerid x hx).moves hinv hmoves

omit [DecidableEq W] in
/-- A record stays in order, when it names the worker's node as before, which is there. -/
theorem RecordInv.present (h : RecordInv sid key w s) (hinv : CycleInv sid key s)
    (hmoves : Moves sid key w s s') (hkept : Kept sid key w s s')
    (hpresent : ∀ x ∈ (s.memory w).lock.id, Present key x s)
    (hpath : ∀ p ∈ (s'.memory w).lock.path, p = PhpZookeeper.lockPath key)
    (hid : (s'.memory w).lock.id = (s.memory w).lock.id)
    (hownerid : (s'.memory w).lock.ownerid = (s.memory w).lock.ownerid) :
    RecordInv sid key w s' := by
  refine ⟨hpath, ?_, fun x hx => .inl ?_, fun x hx => ?_⟩
  · rw [hid]
    exact h.own
  · rw [hid] at hx
    exact hkept x (h.own x hx) (hpresent x hx)
  · rw [hownerid] at hx
    exact (h.ownerid x hx).moves hinv hmoves

omit [DecidableEq W] in
theorem RecordInv.present_of_not_leaving (h : RecordInv sid key w s) (hl : ¬ Leaving w s) :
    ∀ x ∈ (s.memory w).lock.id, Present key x s :=
  fun x hx => (h.id x hx).resolve_right hl

/-- **An operation aside**: it leaves the lock in the record and the worker's nodes, and disturbs
nobody. -/
theorem guar_of_aside (hsid : Function.Injective sid) (hkey : ShortKey key)
    (hsem : (cycleContract sid key w th cb : Contract Op.Res (World srv W)).sem o s r s')
    (ho : ∀ req, o = .zoo req → TurnReq (sid w) key s.nodes req ∧
      ∀ p version, req ≠ .zooDelete p version)
    (hlock : SameLock (s.memory w) (o.effect th (s.memory w)))
    (hpath : th = .watcher → (o.effect th (s.memory w)).path = (s.memory w).path)
    (hdata : s'.nodes.held (sessionPath key) = s.nodes.held (sessionPath key) ∨
      th = .main ∧ ∃ k val, cb = some (.psWrite k val) ∧ s'.stored key = some (some val)) :
    (cycleContract sid key w th cb : Contract Op.Res (World srv W)).guar o s r s' ∧
      Moves sid key w s s' ∧ Kept sid key w s s' ∧ SameLock (s.memory w) (s'.memory w) := by
  obtain ⟨hinv, hallowed, d, hd, hperf⟩ := hsem
  have hmoves := moves_of_perform hkey hperf hd hallowed.bounded fun req hreq => (ho req hreq).1
  have hkept : Kept sid key w s s' := kept_of_perform hperf fun req hreq => (ho req hreq).2
  have hmem := memory_of_perform hperf
  rw [← hmem] at hlock hpath
  have hrecord := (hinv.record w).same hinv hmoves hkept hlock
  refine ⟨⟨hinv.moves hmoves hsid (fun v hv => memory_of_ne hperf hv) hrecord, hmoves,
    fun th' _ hth' => ⟨hlock.pmutex.trans hth', hlock.id, hkept⟩,
    ⟨hdata.imp_right And.right, .inr hkept⟩, fun hth => ?_⟩, hmoves, hkept, hlock⟩
  have hheld := hdata.resolve_right fun hmain => by simp [hth] at hmain
  refine quiet_of_moves hmoves hkept hheld hlock.isLocked (hpath hth) fun hne heq => hne ?_
  exact hlock.pmutex.symm.trans heq

theorem memory_of_sem (hsem : (cycleContract sid key w th cb : Contract Op.Res (World srv W)).sem
    o s r s') : s'.memory w = o.effect th (s.memory w) := by
  obtain ⟨-, -, d, -, hperf⟩ := hsem
  exact memory_of_perform hperf

theorem nodes_of_sem (hsem : (cycleContract sid key w th cb : Contract Op.Res (World srv W)).sem
    o s r s') (hzoo : ∀ req, o ≠ .zoo req) : s'.nodes = s.nodes := by
  obtain ⟨-, -, d, -, hperf⟩ := hsem
  exact congrArg srv.nodes (World.perform_inside hperf hzoo).1

/-- **An operation inside the worker**, which is no request. -/
theorem guar_of_inside (hsid : Function.Injective sid) (hkey : ShortKey key)
    (hsem : (cycleContract sid key w th cb : Contract Op.Res (World srv W)).sem o s r s')
    (hzoo : ∀ req, o ≠ .zoo req)
    (hrecord : Moves sid key w s s' → Kept sid key w s s' → RecordInv sid key w s')
    (hothers : ∀ th', th' ≠ th → s.pmutex w = some th' → s'.pmutex w = some th' ∧
      (s'.memory w).lock.id = (s.memory w).lock.id)
    (hwatcher : th = .watcher → (s'.memory w).isLocked = (s.memory w).isLocked ∧
      (s'.memory w).path = (s.memory w).path ∧ (s.pmutex w ≠ some .main →
        s'.pmutex w ≠ some .main)) :
    (cycleContract sid key w th cb : Contract Op.Res (World srv W)).guar o s r s' ∧
      Moves sid key w s s' ∧ Kept sid key w s s' := by
  have hheld : s'.nodes.held (sessionPath key) = s.nodes.held (sessionPath key) := by
    rw [nodes_of_sem hsem hzoo]
  obtain ⟨hinv, hallowed, d, hd, hperf⟩ := hsem
  have hmoves := moves_of_perform hkey hperf hd hallowed.bounded fun req hreq =>
    absurd hreq (hzoo req)
  have hkept : Kept sid key w s s' := kept_of_perform hperf fun req hreq => absurd hreq (hzoo req)
  refine ⟨⟨hinv.moves hmoves hsid (fun v hv => memory_of_ne hperf hv) (hrecord hmoves hkept),
    hmoves, fun th' hne hth' => ?_, ⟨.inl hheld, .inr hkept⟩, fun hth => ?_⟩, hmoves, hkept⟩
  · obtain ⟨hpmutex, hid⟩ := hothers th' hne hth'
    exact ⟨hpmutex, hid, hkept⟩
  · obtain ⟨hlocked, hpath, hpmutex⟩ := hwatcher hth
    exact quiet_of_moves hmoves hkept hheld hlocked hpath hpmutex

end Operations

/-! ### The critical section -/

/-- The requests of `zkr_lock_lock`, which neither delete a node nor touch the data. -/
inductive LockReq (session : Sid) (key : CString) : Req → Prop where
  | read {r : Req} : r.isRead = true → LockReq session key r
  | mkdir (acl : Option Acl) (len : ℕ) :
      LockReq session key (.zooCreate (lockPath key) none acl {} len)
  | ticket (acl : Option Acl) (len : ℕ) :
      LockReq session key (.zooCreate (childOf (lockPath key) (lockPrefix session)) none acl
        { ephemeral := true, sequence := true } len)

namespace LockReq

variable {session : Sid} {key : CString} {req : Req} (h : LockReq session key req)
include h

theorem turnReq (t : Nodes) : TurnReq session key t req := by
  cases h with
  | read hr => exact .read hr
  | mkdir acl len => exact .mkdir acl len
  | ticket acl len => exact .ticket acl len

theorem ne_delete (p : CString) (version : ℤ) : req ≠ .zooDelete p version := by
  rintro rfl
  cases h with
  | read hr => cases hr

theorem not_mayTouch (hkey : ShortKey key) : ¬ req.MayTouch (sessionPath key) := by
  cases h with
  | read hr =>
    cases req with
    | zooCreate => cases hr
    | zooSet => cases hr
    | zooDelete => cases hr
    | _ => exact fun h => h
  | mkdir acl len => exact (lockPath_ne_sessionPath key).symm
  | ticket acl len => exact hkey.not_mayTouch_ticket session none acl len

end LockReq

/-- The thread holds `pmutex`; a main thread has not locked the session. -/
def Inside (w : W) (th : Thread) (s : World srv W) : Prop :=
  s.pmutex w = some th ∧ (th = .main → (s.memory w).isLocked = false)

/-- The operations of the critical section that neither make the worker's node nor take a name. -/
def VisitOp (key : CString) : Op → Prop
  | .zoo r => r.isRead = true ∨ ∃ acl, r = .zooCreate (lockPath key) none acl {} 0
  | .store (.lockId none) | .store (.lockIsOwner _) => True
  | .load | .fault | .nanosleep | .completion _ => True
  | _ => False

/-- The record that is read has the path of the key's lock, or none. -/
abbrev Known (key : CString) : (o : Op) → o.Res → Prop :=
  KnownResults (PlaceInv.PathIs (lockPath key))

section Section

variable {sid : W → Sid} {key x : CString} {w : W} {th : Thread} {cb : Option Callback}
  {s s' : World srv W} {d : Decision srv} {o : Op} {r : o.Res}

theorem stable_inside (o : Option Op) :
    (cycleContract sid key w th cb : Contract Op.Res (World srv W)).Stable o (Inside w th) := by
  intro s s' hr hs
  refine ⟨(hr.1 hs.1).1, fun hth => ?_⟩
  rw [(hr.2.2 hth).isLocked]
  exact hs.2 hth

omit [DecidableEq W] in
/-- In the critical section of `zkr_lock_lock` no `PS_CLOSE` deletes the worker's node. -/
theorem Inside.not_leaving (hs : Inside w th s) : ¬ Leaving w s := by
  rintro ⟨hmutex, hlocked⟩
  rw [hs.1, Option.some.injEq] at hmutex
  rw [hs.2 hmutex] at hlocked
  cases hlocked

omit [DecidableEq W] in
theorem Inside.same (hs : Inside w th s) (hlock : SameLock (s.memory w) (s'.memory w)) :
    Inside w th s' :=
  ⟨hlock.pmutex.trans hs.1, fun hth => hlock.isLocked.trans (hs.2 hth)⟩

/-- What is known of results. -/
theorem known_of_sem (hsem : (cycleContract sid key w th cb : Contract Op.Res (World srv W)).sem
    o s r s') : Known key o r := by
  obtain ⟨hinv, -, d, -, hperf⟩ := hsem
  cases o with
  | load =>
    obtain rfl := congrArg Prod.fst (Option.some.inj hperf)
    exact (hinv.record w).lockPath
  | zoo req => exact knownReply_of_perform hperf
  | _ => trivial

theorem held_of_not_mayTouch (hperf : s.perform w (sid w) th d o = some (r, s'))
    (ho : ∀ req, o = .zoo req → ¬ req.MayTouch (sessionPath key)) :
    s'.nodes.held (sessionPath key) = s.nodes.held (sessionPath key) :=
  World.perform_frame hperf ho

/-- An operation that leaves the lock in the record, and makes a request of the lock if any. -/
theorem guar_of_lockReq (hsid : Function.Injective sid) (hkey : ShortKey key)
    (hsem : (cycleContract sid key w th cb : Contract Op.Res (World srv W)).sem o s r s')
    (ho : ∀ req, o = .zoo req → LockReq (sid w) key req)
    (hlock : SameLock (s.memory w) (o.effect th (s.memory w)))
    (hpath : th = .watcher → (o.effect th (s.memory w)).path = (s.memory w).path) :
    (cycleContract sid key w th cb : Contract Op.Res (World srv W)).guar o s r s' ∧
      Moves sid key w s s' ∧ Kept sid key w s s' ∧ SameLock (s.memory w) (s'.memory w) := by
  refine guar_of_aside hsid hkey hsem
    (fun req hreq => ⟨(ho req hreq).turnReq _, (ho req hreq).ne_delete⟩) hlock hpath (.inl ?_)
  obtain ⟨-, -, d, -, hperf⟩ := hsem
  exact held_of_not_mayTouch hperf fun req hreq => (ho req hreq).not_mayTouch hkey

/-- An assignment to the record by the thread that holds `pmutex`. -/
theorem guar_of_assign {a : Assign} {u : Unit} (hsid : Function.Injective sid) (hkey : ShortKey key)
    (hs : s.pmutex w = some th)
    (hsem : (cycleContract sid key w th cb : Contract Op.Res (World srv W)).sem (.store a) s u s')
    (hrecord : Moves sid key w s s' → Kept sid key w s s' → RecordInv sid key w s')
    (hlocked : (a.apply (s.memory w)).isLocked = (s.memory w).isLocked)
    (hpath : (a.apply (s.memory w)).path = (s.memory w).path)
    (hpmutex : (a.apply (s.memory w)).lock.pmutex = (s.memory w).lock.pmutex) :
    (cycleContract sid key w th cb : Contract Op.Res (World srv W)).guar (.store a) s u s' ∧
      s'.pmutex w = some th := by
  have hmem : s'.memory w = a.apply (s.memory w) := memory_of_sem hsem
  have hpmutex' : s'.pmutex w = s.pmutex w := by
    rw [World.pmutex, hmem]
    exact hpmutex
  have hothers : ∀ th', th' ≠ th → s.pmutex w ≠ some th' := fun th' hne hth' =>
    hne (Option.some.inj (hth'.symm.trans hs))
  obtain ⟨hg, -, -⟩ := guar_of_inside hsid hkey hsem (fun req hreq => by cases hreq) hrecord
    (fun th' hne hth' => absurd hth' (hothers th' hne)) fun _ => by
      rw [hpmutex', hmem]
      exact ⟨hlocked, hpath, id⟩
  exact ⟨hg, hpmutex'.trans hs⟩

/-- The name is `NULL`, or that of a node of the worker's. -/
def Named (sid : W → Sid) (key : CString) (w : W) (id : Option CString) (s : World srv W) : Prop :=
  ∀ x ∈ id, OwnName (sid w) x ∧ Present key x s

/-- `mutex->id` is set to the name of a node that is there, or to `NULL`. -/
theorem setId {id : Option CString} {u : Unit} (hsid : Function.Injective sid)
    (hkey : ShortKey key) (hs : s.pmutex w = some th) (hid : Named sid key w id s)
    (hsem : (cycleContract sid key w th cb : Contract Op.Res (World srv W)).sem
      (.store (.lockId id)) s u s') :
    (cycleContract sid key w th cb : Contract Op.Res (World srv W)).guar (.store (.lockId id)) s u
      s' ∧ s'.pmutex w = some th ∧ (s'.memory w).isLocked = (s.memory w).isLocked ∧
      (s'.memory w).lock.id = id := by
  have hinv := hsem.1
  have hmem := memory_of_sem hsem
  have hrecord : Moves sid key w s s' → Kept sid key w s s' → RecordInv sid key w s' := by
    intro hmoves hkept
    obtain ⟨hpath, -, -, hownerid⟩ := hinv.record w
    refine ⟨?_, ?_, ?_, ?_⟩ <;> rw [hmem]
    · exact hpath
    · exact fun x hx => (hid x hx).1
    · exact fun x hx => .inl (hkept x (hid x hx).1 (hid x hx).2)
    · exact fun x hx => (hownerid x hx).moves hinv hmoves
  obtain ⟨hg, hpmutex⟩ := guar_of_assign hsid hkey hs hsem hrecord rfl rfl rfl
  refine ⟨hg, hpmutex, ?_, ?_⟩ <;> rw [hmem] <;> rfl

/-- `mutex->ownerid` is set to a name that may be remembered. -/
theorem setOwnerid {u : Unit} (hsid : Function.Injective sid) (hkey : ShortKey key)
    (hs : Inside w th s) (hx : Right sid key w x s)
    (hsem : (cycleContract sid key w th cb : Contract Op.Res (World srv W)).sem
      (.store (.lockOwnerid (some x))) s u s') :
    (cycleContract sid key w th cb : Contract Op.Res (World srv W)).guar
      (.store (.lockOwnerid (some x))) s u s' ∧ Inside w th s' := by
  have hinv := hsem.1
  have hmem := memory_of_sem hsem
  have hrecord : Moves sid key w s s' → Kept sid key w s s' → RecordInv sid key w s' := by
    intro hmoves hkept
    obtain ⟨hpath, hown, hid, -⟩ := hinv.record w
    refine ⟨?_, ?_, ?_, ?_⟩ <;> rw [hmem]
    · exact hpath
    · exact hown
    · exact fun y hy => .inl (hkept y (hown y hy) ((hid y hy).resolve_right hs.not_leaving))
    · intro y hy
      obtain rfl := Option.mem_some.mp hy
      exact hx.moves hinv hmoves
  obtain ⟨hg, hpmutex⟩ := guar_of_assign hsid hkey hs.1 hsem hrecord rfl rfl rfl
  refine ⟨hg, hpmutex, fun hth => ?_⟩
  rw [hmem]
  exact hs.2 hth

/-- The operations of the critical section, but for those that take a place in the queue. -/
theorem criticalRules (hsid : Function.Injective sid) (hkey : ShortKey key) :
    CriticalRules (cycleContract sid key w th cb : Contract Op.Res (World srv W)) (VisitOp key)
      (Known key) (Inside w th) where
  stableIn := stable_inside
  inside o s r s' ho hs hsem := by
    refine ⟨known_of_sem hsem, ?_⟩
    have haside : (∀ req, o = .zoo req → LockReq (sid w) key req) →
        SameLock (s.memory w) (o.effect th (s.memory w)) →
        (o.effect th (s.memory w)).path = (s.memory w).path →
        (cycleContract sid key w th cb).guar o s r s' ∧ Inside w th s' := by
      intro hreq hlock hpath
      obtain ⟨hg, -, -, hlock'⟩ := guar_of_lockReq hsid hkey hsem hreq hlock fun _ => hpath
      exact ⟨hg, hs.same hlock'⟩
    cases o with
    | zoo req =>
      refine haside (fun req' hreq => ?_) (.refl _) rfl
      obtain rfl := Op.zoo.inj hreq
      rcases ho with hr | ⟨acl, rfl⟩
      · exact .read hr
      · exact .mkdir acl 0
    | store a =>
      cases a with
      | lockId id =>
        cases id with
        | none =>
          obtain ⟨hg, hpmutex, hlocked, -⟩ :=
            setId hsid hkey hs.1 (fun x hx => by cases hx) hsem
          exact ⟨hg, hpmutex, fun hth => hlocked.trans (hs.2 hth)⟩
        | some x => exact ho.elim
      | lockIsOwner b => exact haside (fun req hreq => by cases hreq) ⟨rfl, rfl, rfl, rfl, rfl⟩ rfl
      | _ => exact ho.elim
    | load => exact haside (fun req hreq => by cases hreq) (.refl _) rfl
    | nanosleep => exact haside (fun req hreq => by cases hreq) (.refl _) rfl
    | completion rc => exact haside (fun req hreq => by cases hreq) (.refl _) rfl
    | fault => exact r.elim
    | _ => exact ho.elim

theorem visitEffects : VisitEffects (VisitOp key) (Known key) where
  load := trivial
  fault := trivial
  nanosleep := trivial
  completion _ := trivial
  clearId := trivial
  setIsOwner _ := trivial
  exists_ _ _ := .inl rfl
  mkdir p acl hp := .inr ⟨acl, by rw [PlaceInv.eq_of_knownPath hp]⟩
  list _ _ := .inl rfl
  watch _ _ _ _ := .inl rfl
  names _ _ ha := ha.1

/-- The holder of `pmutex` cannot lock it again, so it never gives its node up. -/
theorem triple_giveUp :
    Triple (cycleContract sid key w th cb : Contract Op.Res (World srv W)) (Inside w th) giveUp
      fun _ => Inside w th := by
  have hlock : Triple (cycleContract sid key w th cb : Contract Op.Res (World srv W)) (Inside w th)
      zkrLockUnlock fun _ _ => False := by
    refine .step (o := Op.pthreadMutexLock) (fun _ _ => False) (fun _ hs => hs) (stable_inside _)
      (fun s r s' hs hsem => ?_) fun _ => Triple.of_false fun _ hs => hs
    obtain ⟨-, -, d, -, hperf⟩ := hsem
    simp [World.perform, hs.1] at hperf
  exact hlock.bind fun _ => Triple.of_false fun _ hs => hs

/-! ### A place in the queue -/

omit [DecidableEq W] in
/-- What the worker sees after a read is the state that has answered it, or a later one. -/
theorem CycleInv.seen_of_read (hinv : CycleInv sid key s) {lag : ℕ} {T T' : srv.State}
    (hT : (s.tree :: s.views w)[lag]? = some T) (hT' : T' ∈ s.tree :: (s.views w).take lag) :
    Earlier (sid w) key (srv.nodes T) (srv.nodes T') := by
  have htake : (s.tree :: s.views w).take (lag + 1) = (s.tree :: s.views w).take lag ++ [T] := by
    rw [List.take_add_one, hT, Option.toList_some]
  have hpairwise := (hinv.seen w).sublist (List.take_sublist (lag + 1) _)
  rw [htake, List.pairwise_append] at hpairwise
  rw [← List.take_succ_cons, htake, List.mem_append, List.mem_singleton] at hT'
  rcases hT' with hT' | rfl
  · exact hpairwise.2.2 T' hT' T (List.mem_singleton_self T)
  · exact .refl ..

/-- A name that a listing has shown the worker: it is one of its nodes, if it has the worker's
prefix, and right, if it comes first. -/
structure Listed (sid : W → Sid) (key : CString) (w : W) (vector : List CString)
    (s : World srv W) : Prop where
  found : ∀ x ∈ lookupnode vector (lockPrefix (sid w)), OwnName (sid w) x ∧ Present key x s
  first : ∀ x rest, sortChildren vector = some (x :: rest) → Right sid key w x s

theorem listed_of_listing {a : Reply}
    (hsem : (cycleContract sid key w th cb : Contract Op.Res (World srv W)).sem
      (.zoo (.zooGetChildren (lockPath key))) s a s') (ha : a.rc = ZOK) :
    Listed sid key w a.strings s' := by
  obtain ⟨hinv, -, d, hd, hperf⟩ := hsem
  obtain ⟨T, b, hT, hans, hab, htree, hviews⟩ := World.perform_read hperf rfl hd
  obtain rfl : a = b := hab
  have hlist := hans.zooGetChildren.2
  rw [ha] at hlist
  obtain ⟨-, hnames⟩ : a.strings.Nodup ∧ ∀ y, y ∈ a.strings ↔ '/' ∉ y ∧
      srv.nodes T (childOf (lockPath key) y) ≠ none := by simpa using hlist
  have hlater : ∀ T' ∈ s'.tree :: s'.views w, Earlier (sid w) key (srv.nodes T) (srv.nodes T') := by
    intro T' hT'
    rw [htree, hviews, Function.update_self] at hT'
    exact hinv.seen_of_read hT hT'
  have hmem : ∀ T' ∈ s'.tree :: s'.views w, T' ∈ s.tree :: s.views w := by
    intro T' hT'
    rw [htree, hviews, Function.update_self] at hT'
    exact (List.mem_cons.mp hT').elim (fun h => h ▸ List.mem_cons_self)
      fun h => List.mem_cons_of_mem _ (List.mem_of_mem_take h)
  have hnow := hlater s'.tree List.mem_cons_self
  obtain ⟨q, hq⟩ := hinv.exists_queue (List.mem_of_getElem? hT)
  refine ⟨fun x hx => ?_, fun x rest hfirst => ⟨?_, fun T' hT' => ?_⟩⟩
  · obtain ⟨hxmem, hown⟩ := ownName_of_lookupnode hx fun y hy => ((hnames y).mp hy).1
    exact ⟨hown, (hnow.own x hown).mp ((hnames x).mp hxmem).2⟩
  · obtain ⟨q', hq'⟩ := hinv.exists_queue (hmem s'.tree List.mem_cons_self)
    exact (hnow.first hq hq' hnames hfirst).2
  · obtain ⟨q', hq'⟩ := hinv.exists_queue (hmem T' hT')
    exact ((hlater T' hT').first hq hq' hnames hfirst).1

/-- A listing of the critical section. -/
theorem triple_listing (hsid : Function.Injective sid) (hkey : ShortKey key)
    {path : Option CString} (hp : ∀ p ∈ path, KnownPath (Known key) p) (n : ℕ) :
    Triple (cycleContract sid key w th cb : Contract Op.Res (World srv W)) (Inside w th)
      (retryGetchildren path n) fun a s => Inside w th s ∧
        (a.rc = ZOK → Listed sid key w a.strings s) := by
  have hcritical : CriticalRules (cycleContract sid key w th cb : Contract Op.Res (World srv W))
    (VisitOp key) (Known key) (Inside w th) := criticalRules hsid hkey
  refine hcritical.retryRequest visitEffects.toBaseEffects (fun _ _ hs => hs.1)
    (fun a s ha hs => ⟨hs, fun hok => ?_⟩) ?_
  · simp [ha] at hok
  · cases path with
    | none => exact .ret fun s hs => ⟨hs, fun hok => by simp at hok⟩
    | some p =>
      obtain rfl := PlaceInv.eq_of_knownPath (hp p rfl)
      refine .step (o := .zoo (.zooGetChildren (lockPath key))) _ (fun _ hs => hs)
        (hcritical.stableIn _) (fun s a s' hs hsem => ?_) fun a => .ret fun _ hs => hs
      obtain ⟨-, hg, hs'⟩ := hcritical.inside _ s a s' (.inl rfl) hs hsem
      exact ⟨hg, hs', listed_of_listing hsem⟩

theorem stable_right :
    (cycleContract sid key w th cb : Contract Op.Res (World srv W)).Stable
      (some (.store (.lockOwnerid (some x)))) (Right sid key w x) :=
  fun _ _ hr hs => hr.2.1 x rfl hs

theorem placeRules (hsid : Function.Injective sid) (hkey : ShortKey key) :
    PlaceRules (cycleContract sid key w th cb : Contract Op.Res (World srv W)) (VisitOp key)
      (Known key) (Inside w th) (Right sid key w) where
  toCriticalRules := criticalRules hsid hkey
  visit := visitEffects
  first p s a s' x rest hp _ hsem ha hfirst := by
    obtain rfl := PlaceInv.eq_of_knownPath hp
    exact (listed_of_listing hsem ha).first x rest hfirst
  stableFirst _ := stable_right
  setOwnerid x s r s' hs hx hsem := setOwnerid hsid hkey hs hx hsem
  giveUp := triple_giveUp

/-- The thread that holds `pmutex` keeps its node. -/
theorem stable_named (id : Option CString) (o : Option Op) :
    (cycleContract sid key w th cb : Contract Op.Res (World srv W)).Stable o fun s =>
      Inside w th s ∧ Named sid key w id s := by
  intro s s' hr hs
  have hkept := (hr.1 hs.1.1).2.2
  exact ⟨stable_inside o s s' hr hs.1, fun x hx =>
    ⟨(hs.2 x hx).1, hkept x (hs.2 x hx).1 (hs.2 x hx).2⟩⟩

/-- The node that a `create` has made is there. -/
theorem create_ticket (hsid : Function.Injective sid) (hkey : ShortKey key) {acl : Option Acl}
    {a : Reply} (hs : Inside w th s)
    (hsem : (cycleContract sid key w th cb : Contract Op.Res (World srv W)).sem
      (.zoo (.zooCreate (childOf (lockPath key) (lockPrefix (sid w))) none acl
        { ephemeral := true, sequence := true } ((lockPath key).length + 41))) s a s') :
    (cycleContract sid key w th cb : Contract Op.Res (World srv W)).guar
      (.zoo (.zooCreate (childOf (lockPath key) (lockPrefix (sid w))) none acl
        { ephemeral := true, sequence := true } ((lockPath key).length + 41))) s a s' ∧
      Inside w th s' ∧ (a.rc = ZOK → Named sid key w (getName a.realPath) s') := by
  obtain ⟨hg, -, -, hlock⟩ := guar_of_lockReq hsid hkey hsem (fun req hreq => by
    obtain rfl := Op.zoo.inj hreq
    exact .ticket ..) (.refl _) fun _ => rfl
  refine ⟨hg, hs.same hlock, fun ha => ?_⟩
  obtain ⟨-, -, d, hd, hperf⟩ := hsem
  obtain ⟨b, hans, rfl, -⟩ := World.perform_change hperf rfl hd
  rw [Reply.received_rc] at ha
  rcases hans.zooCreate with ⟨d, n, q, k, -, hreal, -, -, rfl, -, -, -, -, -, ht⟩ | ⟨-, hrc, -⟩
  · intro x hx
    rw [Reply.received, hreal, if_pos rfl, getName_enqueued, Option.mem_some] at hx
    subst hx
    refine ⟨ownName_lockName .., ?_⟩
    rw [Present, ht, if_pos rfl, show childOf (lockPath key) (lockPrefix (sid w)) ++
      sprintf010d (d.cseq + k) = childOf (lockPath key) (lockName (sid w) (d.cseq + k)) by
        simp [childOf, lockName], Function.update_self]
    simp
  · exact absurd ha hrc

theorem triple_createNode (hsid : Function.Injective sid) (hkey : ShortKey key) :
    Triple (cycleContract sid key w th cb : Contract Op.Res (World srv W)) (Inside w th)
      (createNode (sid w) (some (lockPath key))) fun _ => Inside w th := by
  have hcritical : CriticalRules (cycleContract sid key w th cb : Contract Op.Res (World srv W))
    (VisitOp key) (Known key) (Inside w th) := criticalRules hsid hkey
  have hstore : ∀ id, Triple (cycleContract sid key w th cb : Contract Op.Res (World srv W))
      (fun s => Inside w th s ∧ Named sid key w id s)
      ((act (.store (.lockId id))).bind fun _ => .ret ZOK : Code Status)
      fun _ => Inside w th := by
    intro id
    refine .step (fun _ => Inside w th) (fun _ hs => hs) (stable_named id _)
      (fun s r s' hs hsem => ?_) fun _ => .ret fun _ hs => hs
    obtain ⟨hg, hpmutex, hlocked, -⟩ := setId hsid hkey hs.1.1 hs.2 hsem
    exact ⟨hg, hpmutex, fun hth => hlocked.trans (hs.1.2 hth)⟩
  rw [createNode_some]
  refine hcritical.step (o := .load) trivial fun m _ => ?_
  refine .step (o := .zoo _) (fun (a : Reply) (s : World srv W) => Inside w th s ∧
    (a.rc = ZOK → Named sid key w (getName a.realPath) s)) (fun _ hs => hs) (stable_inside _)
    (fun s a s' hs hsem => create_ticket hsid hkey hs hsem) fun a => ?_
  split_ifs with hrc
  · exact .ret fun _ hs => hs.1
  · exact (hstore _).pre fun s hs => ⟨hs.1, hs.2 (not_not.mp hrc)⟩

theorem triple_lookupOrCreate (hsid : Function.Injective sid) (hkey : ShortKey key)
    {path : Option CString} {vector : List CString}
    (hp : ∀ p ∈ path, KnownPath (Known key) p) :
    Triple (cycleContract sid key w th cb : Contract Op.Res (World srv W))
      (fun s => Inside w th s ∧ Listed sid key w vector s)
      (lookupOrCreate (sid w) path vector) fun _ => Inside w th := by
  have hcritical : CriticalRules (cycleContract sid key w th cb : Contract Op.Res (World srv W))
    (VisitOp key) (Known key) (Inside w th) := criticalRules hsid hkey
  refine .step (o := .store (.lockId (lookupnode vector (lockPrefix (sid w)))))
    (K := fun s => Inside w th s ∧ Named sid key w (lookupnode vector (lockPrefix (sid w))) s)
    (fun _ => Inside w th) (fun s (hs : Inside w th s ∧ Listed sid key w vector s) =>
      ⟨hs.1, hs.2.found⟩) (stable_named _ _) (fun s r s' hs hsem => ?_)
    fun _ => hcritical.step (o := .load) trivial fun m _ => ?_
  · obtain ⟨hg, hpmutex, hlocked, -⟩ := setId hsid hkey hs.1.1 hs.2 hsem
    exact ⟨hg, hpmutex, fun hth => hlocked.trans (hs.1.2 hth)⟩
  · split_ifs
    · exact .ret fun _ hs => hs
    · cases path with
      | none => exact hcritical.undefined visitEffects.toBaseEffects
      | some p =>
        obtain rfl := PlaceInv.eq_of_knownPath (hp p rfl)
        exact triple_createNode hsid hkey

/-- **One round of `zkr_lock_operation`.** -/
theorem triple_zkrLockRound (hsid : Function.Injective sid) (hkey : ShortKey key)
    {path : Option CString} (hp : ∀ p ∈ path, KnownPath (Known key) p) :
    Triple (cycleContract sid key w th cb : Contract Op.Res (World srv W)) (Inside w th)
      (zkrLockRound (sid w) path) fun _ => Inside w th := by
  have hcritical : CriticalRules (cycleContract sid key w th cb : Contract Op.Res (World srv W))
    (VisitOp key) (Known key) (Inside w th) := criticalRules hsid hkey
  refine (triple_listing hsid hkey hp 3).bind fun a => ?_
  split_ifs with ha
  · exact .ret fun _ hs => hs.1
  · refine ((triple_lookupOrCreate hsid hkey hp).pre fun s hs =>
      ⟨hs.1, hs.2 (not_not.mp ha)⟩).bind fun ret => ?_
    split_ifs
    · exact .ret fun _ hs => hs
    · refine hcritical.step (o := .load) trivial fun m _ => ?_
      split_ifs
      · refine ((placeRules hsid hkey).retryGetchildren hp 3).bind fun b => ?_
        split_ifs with hb
        · exact .ret fun _ hs => hs.1
        · exact (((placeRules hsid hkey).findPlace b.strings).pre fun s hs =>
            ⟨hs.1, hs.2 (not_not.mp hb)⟩).bind fun _ => .ret fun _ hs => hs
      · exact .ret fun _ hs => hs

/-! ### `zkr_lock_lock` -/

/-- Outside the critical section: a main thread has not locked the session. -/
def Outside (w : W) (th : Thread) (s : World srv W) : Prop :=
  th = .main → (s.memory w).isLocked = false

/-- What a main thread knows when it owns the lock. -/
def Owner (sid : W → Sid) (key : CString) (w : W) (th : Thread) (s : World srv W) : Prop :=
  th = .main → InTurn sid key w s

theorem stable_outside (o : Option Op) :
    (cycleContract sid key w th cb : Contract Op.Res (World srv W)).Stable o (Outside w th) :=
  fun _ _ hr hs hth => (hr.2.2 hth).isLocked.trans (hs hth)

theorem stable_owner (o : Option Op) :
    (cycleContract sid key w th cb : Contract Op.Res (World srv W)).Stable o
      (Owner sid key w th) :=
  fun _ _ hr hs hth => ((hr.2.2 hth).inTurn (hs hth)).1

/-- A call of the thread library for `pmutex`, when the record then says of the worker's node that
it is there. -/
theorem guar_of_mutex (hsid : Function.Injective sid) (hkey : ShortKey key)
    (ho : o = .pthreadMutexLock ∨ o = .pthreadMutexUnlock)
    (hothers : ∀ th', th' ≠ th → s.pmutex w ≠ some th')
    (hid : ∀ x ∈ (s.memory w).lock.id, Present key x s)
    (hsem : (cycleContract sid key w th cb : Contract Op.Res (World srv W)).sem o s r s') :
    (cycleContract sid key w th cb : Contract Op.Res (World srv W)).guar o s r s' ∧
      s'.nodes = s.nodes ∧ (s'.memory w).isLocked = (s.memory w).isLocked ∧
      (s'.memory w).lock.id = (s.memory w).lock.id ∧
      (s'.memory w).lock.path = (s.memory w).lock.path := by
  have hinv := hsem.1
  have hzoo : ∀ req, o ≠ .zoo req := by rcases ho with rfl | rfl <;> exact nofun
  have hnodes := nodes_of_sem hsem hzoo
  have hmem := memory_of_sem hsem
  have hsame : (s'.memory w).lock.path = (s.memory w).lock.path ∧
      (s'.memory w).lock.id = (s.memory w).lock.id ∧
      (s'.memory w).lock.ownerid = (s.memory w).lock.ownerid ∧
      (s'.memory w).isLocked = (s.memory w).isLocked ∧ (s'.memory w).path = (s.memory w).path := by
    rw [hmem]
    rcases ho with rfl | rfl <;> exact ⟨rfl, rfl, rfl, rfl, rfl⟩
  obtain ⟨hpath, hid', hownerid, hlocked, hspath⟩ := hsame
  have hrecord : Moves sid key w s s' → Kept sid key w s s' → RecordInv sid key w s' :=
    fun hmoves hkept => (hinv.record w).present hinv hmoves hkept hid
      (by rw [hpath]; exact (hinv.record w).lockPath) hid' hownerid
  have hpmutex : th = .watcher → s'.pmutex w ≠ some .main := by
    rw [World.pmutex, hmem]
    rintro rfl
    rcases ho with rfl | rfl <;> exact nofun
  obtain ⟨hg, -, -⟩ := guar_of_inside hsid hkey hsem hzoo hrecord
    (fun th' hne hth' => absurd hth' (hothers th' hne))
    fun hth => ⟨hlocked, hspath, fun _ => hpmutex hth⟩
  exact ⟨hg, hnodes, hlocked, hid', hpath⟩

/-- `pthread_mutex_lock` -/
theorem lockMutex {u : Unit} (hsid : Function.Injective sid) (hkey : ShortKey key)
    (hsem : (cycleContract sid key w th cb : Contract Op.Res (World srv W)).sem
      .pthreadMutexLock s u s') :
    (cycleContract sid key w th cb : Contract Op.Res (World srv W)).guar .pthreadMutexLock s u s' ∧
      s'.pmutex w = some th ∧ (s'.memory w).isLocked = (s.memory w).isLocked ∧
      ∀ x ∈ (s'.memory w).lock.id, Present key x s' := by
  have hsem' := hsem
  obtain ⟨hinv, -, d, -, hperf⟩ := hsem'
  have hfree : s.pmutex w = none := by
    by_contra hne
    simp [World.perform, hne] at hperf
  have hid := (hinv.record w).present_of_not_leaving fun hleaving => by
    rw [Leaving, hfree] at hleaving
    cases hleaving.1
  obtain ⟨hg, hnodes, hlocked, hid', -⟩ :=
    guar_of_mutex hsid hkey (.inl rfl) (fun _ _ => by simp [hfree]) hid hsem
  refine ⟨hg, by rw [pmutex_of_perform hperf]; rfl, hlocked, fun x hx => ?_⟩
  rw [hid'] at hx
  rw [Present, hnodes]
  exact hid x hx

/-- `pthread_mutex_unlock`, by the thread that holds `pmutex`. -/
theorem unlockMutex {u : Unit} (hsid : Function.Injective sid) (hkey : ShortKey key)
    (hs : s.pmutex w = some th) (hid : ∀ x ∈ (s.memory w).lock.id, Present key x s)
    (hsem : (cycleContract sid key w th cb : Contract Op.Res (World srv W)).sem
      .pthreadMutexUnlock s u s') :
    (cycleContract sid key w th cb : Contract Op.Res (World srv W)).guar .pthreadMutexUnlock s u
      s' ∧ s'.pmutex w = none ∧ (s'.memory w).isLocked = (s.memory w).isLocked := by
  have hothers : ∀ th', th' ≠ th → s.pmutex w ≠ some th' := by
    rintro th' hne heq
    rw [hs, Option.some.injEq] at heq
    exact hne heq.symm
  obtain ⟨hg, -, hlocked, -⟩ := guar_of_mutex hsid hkey (.inr rfl) hothers hid hsem
  obtain ⟨-, -, d, -, hperf⟩ := hsem
  exact ⟨hg, by rw [pmutex_of_perform hperf]; rfl, hlocked⟩

omit [DecidableEq W] in
/-- **A worker that owns the lock is in turn**, unless its `PS_CLOSE` is on the way. -/
theorem inTurn_of_isowner (hinv : CycleInv sid key s) (hleaving : ¬ Leaving w s)
    (howner : (s.memory w).lock.isowner = true) : InTurn sid key w s := by
  obtain ⟨-, hown, hid, hright⟩ := hinv.record w
  unfold ZkrLockMutex.isowner at howner
  cases hx : (s.memory w).lock.id with
  | none => simp [hx] at howner
  | some x =>
    cases hy : (s.memory w).lock.ownerid with
    | none => simp [hx, hy] at howner
    | some y =>
      simp only [hx, hy, beq_iff_eq, strcmp_eq_iff] at howner
      subst howner
      have hpresent := (hid x hx).resolve_right hleaving
      intro T hT
      have hseen : Earlier (sid w) key (srv.nodes T) s.nodes := by
        rcases List.mem_cons.mp hT with rfl | hT
        · exact .refl ..
        · exact (List.pairwise_cons.mp (hinv.seen w)).1 T hT
      obtain ⟨q, hq⟩ := hinv.exists_queue hT
      obtain ⟨n, rfl, hn⟩ := (hq.present_iff (hown x hx)).mp
        ((hseen.own x (hown x hx)).mpr hpresent)
      exact ⟨q, n, hq, (hright _ hy).held T hT q n hq rfl hn⟩

/-- The rules of `zkr_lock_lock`. -/
theorem roundRules (hsid : Function.Injective sid) (hkey : ShortKey key) :
    RoundRules (cycleContract sid key w th cb : Contract Op.Res (World srv W)) (sid w) (VisitOp key)
      (Known key) (Outside w th) (Inside w th) (Owner sid key w th) where
  toCriticalRules := criticalRules hsid hkey
  visit := visitEffects
  stable := stable_outside
  round _ hp := triple_zkrLockRound hsid hkey hp
  lock s r s' hs hsem := by
    obtain ⟨hg, hpmutex, hlocked, -⟩ := lockMutex hsid hkey hsem
    exact ⟨hg, hpmutex, fun hth => hlocked.trans (hs hth)⟩
  unlock s r s' hs hsem := by
    have hid := (hsem.1.record w).present_of_not_leaving hs.not_leaving
    obtain ⟨hg, -, hlocked⟩ := unlockMutex hsid hkey hs.1 hid hsem
    exact ⟨hg, fun hth => hlocked.trans (hs.2 hth)⟩
  isowner s m s' hs hsem := by
    have hinv := hsem.1
    obtain ⟨hg, -, -, hlock⟩ := guar_of_lockReq hsid hkey hsem (fun req hreq => by cases hreq)
      (.refl _) fun _ => rfl
    obtain ⟨-, -, d, -, hperf⟩ := hsem
    obtain ⟨rfl, rfl⟩ := Prod.mk.inj (Option.some.inj hperf)
    refine ⟨hg, hs, fun howner hth => inTurn_of_isowner hinv (fun hleaving => ?_) howner⟩
    rw [Leaving, hs hth] at hleaving
    cases hleaving.2

/-- **`lock_watcher_fn`** -/
theorem triple_lockWatcherFn (hsid : Function.Injective sid) (hkey : ShortKey key) :
    Triple (cycleContract sid key w .watcher cb : Contract Op.Res (World srv W)) (fun _ => True)
      (lockWatcherFn (sid w)) fun _ _ => True := by
  have hlock : Triple (cycleContract sid key w .watcher cb : Contract Op.Res (World srv W))
      (Outside w .watcher) (lockWatcherFn (sid w)) fun _ => Outside w .watcher :=
    (roundRules hsid hkey).lockWatcherFn
  exact (hlock.pre fun _ _ hth => by cases hth).post fun _ _ _ => trivial

end Section

end Cycles

end PhpZookeeper
