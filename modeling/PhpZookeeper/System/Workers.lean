import PhpZookeeper.Server.Tree
import PhpZookeeper.Session.Handlers

/-!
# Workers

Any number of PHP workers and one service. A worker has a main thread, which runs one callback
after another, and a thread that runs `lock_watcher_fn` for one notification after another. One
step of the system is one operation of one thread, or the start or the end of a callback or of a
notification; the order of the steps, what the service decides and which requests fail are the
labels of the steps, so that a run is a list of labels that can be evaluated. The handle of each
worker has connected: it has the session id that `sid` says, from the first step to the last.
-/

namespace PhpZookeeper

open Theory Prog Status

/-! ### The world -/

/-- What decides a request: the choice of the service, whether the reply arrives, and how many of
the last changes by other clients a read does not see yet. -/
structure Decision (srv : Server) where
  choice : srv.Choice
  fate : Fate := .answered
  lag : ℕ := 0

/-- What the threads share. -/
structure World (srv : Server) (W : Type) where
  tree : srv.State
  /-- The states before changes by others that each worker has not seen, the last one first. Its own
  changes it has seen. -/
  views : W → List srv.State := fun _ => []
  /-- The session record of each worker. -/
  memory : W → PhpZookeeperSession := fun _ => {}
  /-- The nodes each worker's `lock_watcher_fn` watches. -/
  watches : W → List CString := fun _ => []
  /-- How many notifications each worker's `lock_watcher_fn` has still to be called for. -/
  events : W → ℕ := fun _ => 0

/-- The node that an answered request has made, changed or removed. -/
def Req.touched (r : Req) (a : Reply) : Option CString :=
  if a.rc = ZOK then
    match r with
    | .zooCreate _ _ _ _ _ => some a.realPath
    | .zooSet p _ _ => some p
    | .zooDelete p _ => some p
    | _ => none
  else none

namespace World

variable {srv : Server} {W : Type}

/-- The nodes of the service. -/
def nodes (s : World srv W) : Nodes := srv.nodes s.tree

/-- The state from which a read is answered that lags behind by `lag` changes. -/
def seen (s : World srv W) (w : W) (lag : ℕ) : srv.State :=
  ((s.tree :: s.views w)[lag]?).getD s.tree

theorem seen_mem (s : World srv W) (w : W) (lag : ℕ) : s.seen w lag ∈ s.tree :: s.views w := by
  unfold seen
  cases h : (s.tree :: s.views w)[lag]? with
  | none => exact List.mem_cons_self
  | some T => exact List.mem_of_getElem? h

@[simp] theorem seen_zero (s : World srv W) (w : W) : s.seen w 0 = s.tree := rfl

/-- The watches on a node that has been touched fire, once. -/
def fire (s : World srv W) : Option CString → World srv W
  | none => s
  | some p =>
    { s with
      watches := fun w => (s.watches w).filter fun q => q != p
      events := fun w => if p ∈ s.watches w then s.events w + 1 else s.events w }

@[simp] theorem nodes_fire (s : World srv W) (p : Option CString) : (s.fire p).nodes = s.nodes := by
  cases p <;> rfl

@[simp] theorem memory_fire (s : World srv W) (p : Option CString) :
    (s.fire p).memory = s.memory := by
  cases p <;> rfl

/-- The world after a change by a client that is no worker, which may touch a watched node. -/
def others (s : World srv W) (tree : srv.State) (views : W → List srv.State)
    (touched : Option CString) : World srv W :=
  { s with tree := tree, views := views }.fire touched

@[simp] theorem nodes_others (s : World srv W) (tree : srv.State) (views : W → List srv.State)
    (touched : Option CString) : (s.others tree views touched).nodes = srv.nodes tree :=
  nodes_fire _ _

@[simp] theorem memory_others (s : World srv W) (tree : srv.State) (views : W → List srv.State)
    (touched : Option CString) : (s.others tree views touched).memory = s.memory :=
  memory_fire _ _

@[simp] theorem views_others (s : World srv W) (tree : srv.State) (views : W → List srv.State)
    (touched : Option CString) : (s.others tree views touched).views = views := by
  cases touched <;> rfl

variable [DecidableEq W]

/-- A node's `exists` that is answered, with the node or without, leaves a watch. -/
def watch (s : World srv W) (w : W) (r : Req) (a : Reply) : World srv W :=
  match r with
  | .zooWexists p =>
    if (a.rc = ZOK ∨ a.rc = ZNONODE) ∧ p ∉ s.watches w then
      { s with watches := Function.update s.watches w (p :: s.watches w) }
    else s
  | _ => s

/-- A read of the worker `w`: from then on the worker sees at least what it has seen. -/
def look (s : World srv W) (w : W) (sid : Sid) (d : Decision srv) (r : Req) :
    Reply × World srv W :=
  match d.fate with
  | .answered =>
    let a := (srv.serve d.choice sid r (s.seen w d.lag)).1
    (a.received r,
      { s with views := Function.update s.views w ((s.views w).take d.lag) }.watch w r a)
  | .failed why _ => ({ rc := why.status }, s)

/-- What a change by the worker `w` leaves: the others may still see the state before it. -/
def applied (s : World srv W) (w : W) (r : Req) (a : Reply × srv.State) : World srv W :=
  { s with
    tree := a.2
    views := fun v => if v = w then [] else s.tree :: s.views v }.fire (r.touched a.1)

/-- A request of the worker `w`, whose session has the id `sid`. -/
def request (s : World srv W) (w : W) (sid : Sid) (d : Decision srv) (r : Req) :
    Reply × World srv W :=
  if r.isRead then s.look w sid d r
  else
    let a := srv.serve d.choice sid r s.tree
    match d.fate with
    | .answered => (a.1.received r, s.applied w r a)
    | .failed why true => ({ rc := why.status }, s.applied w r a)
    | .failed why false => ({ rc := why.status }, s)

/-- Changes the record of the worker `w`. -/
def modify (s : World srv W) (w : W) (f : PhpZookeeperSession → PhpZookeeperSession) :
    World srv W :=
  { s with memory := Function.update s.memory w (f (s.memory w)) }

/-- The thread that holds the `pmutex` of the worker `w`. -/
def pmutex (s : World srv W) (w : W) : Option Thread := (s.memory w).lock.pmutex

/-- One operation of a thread, or `none` when it cannot be performed: a `pthread_mutex_lock` waits
while the mutex is held, by the same thread too, and nothing follows a `fault`. -/
def perform (s : World srv W) (w : W) (sid : Sid) (th : Thread) (d : Decision srv) :
    (o : Op) → Option (o.Res × World srv W)
  | .zoo r => some (s.request w sid d r)
  | .load => some (s.memory w, s)
  | .store a => some ((), s.modify w (Op.effect th (.store a)))
  | .pthreadMutexInit => some ((), s.modify w (Op.effect th .pthreadMutexInit))
  | .pthreadMutexLock =>
    if s.pmutex w = none then some ((), s.modify w (Op.effect th .pthreadMutexLock)) else none
  | .pthreadMutexUnlock => some ((), s.modify w (Op.effect th .pthreadMutexUnlock))
  | .pthreadMutexDestroy | .nanosleep | .usleep _ | .efreePath | .completion _ => some ((), s)
  | .fault => none

/-! ### What an operation does -/

@[simp] theorem nodes_watch (s : World srv W) (w : W) (r : Req) (a : Reply) :
    (s.watch w r a).nodes = s.nodes := by
  cases r <;> simp only [watch]
  split <;> rfl

@[simp] theorem tree_watch (s : World srv W) (w : W) (r : Req) (a : Reply) :
    (s.watch w r a).tree = s.tree := by
  cases r <;> simp only [watch]
  split <;> rfl

@[simp] theorem views_watch (s : World srv W) (w : W) (r : Req) (a : Reply) :
    (s.watch w r a).views = s.views := by
  cases r <;> simp only [watch]
  split <;> rfl

@[simp] theorem memory_watch (s : World srv W) (w : W) (r : Req) (a : Reply) :
    (s.watch w r a).memory = s.memory := by
  cases r <;> simp only [watch]
  split <;> rfl

@[simp] theorem nodes_modify (s : World srv W) (w : W)
    (f : PhpZookeeperSession → PhpZookeeperSession) : (s.modify w f).nodes = s.nodes := rfl

@[simp] theorem memory_modify (s : World srv W) (w : W)
    (f : PhpZookeeperSession → PhpZookeeperSession) :
    (s.modify w f).memory = Function.update s.memory w (f (s.memory w)) := rfl

@[simp] theorem nodes_applied (s : World srv W) (w : W) (r : Req) (a : Reply × srv.State) :
    (s.applied w r a).nodes = srv.nodes a.2 := nodes_fire _ _

@[simp] theorem views_applied (s : World srv W) (w : W) (r : Req) (a : Reply × srv.State) :
    (s.applied w r a).views = fun v => if v = w then [] else s.tree :: s.views v := by
  unfold applied fire
  cases r.touched a.1 <;> rfl

@[simp] theorem memory_applied (s : World srv W) (w : W) (r : Req) (a : Reply × srv.State) :
    (s.applied w r a).memory = s.memory := memory_fire _ _

/-- A request that does not lag behind is answered as documented, and its caller may not see the
answer. -/
theorem request_spec (s : World srv W) (w : W) (sid : Sid) {d : Decision srv} (hd : d.lag = 0)
    (r : Req) :
    ∃ a t, Answers sid r s.nodes a t ∧ (s.request w sid d r).2.memory = s.memory ∧
      match d.fate with
      | .answered => (s.request w sid d r).1 = a.received r ∧ (s.request w sid d r).2.nodes = t
      | .failed why applied => (s.request w sid d r).1 = { rc := why.status } ∧
          (s.request w sid d r).2.nodes = if applied then t else s.nodes := by
  have hans := srv.documented d.choice sid r s.tree
  refine ⟨_, _, hans, ?_⟩
  unfold request
  split
  · next hr =>
    have hread := hans.of_isRead hr
    unfold look
    rw [hd, seen_zero, hread]
    cases d.fate with
    | answered => exact ⟨by simp, rfl, nodes_watch _ _ _ _⟩
    | failed why applied => exact ⟨rfl, rfl, by simp [nodes]⟩
  · cases d.fate with
    | answered => exact ⟨by simp, rfl, by simp⟩
    | failed why applied =>
      cases applied with
      | true => exact ⟨by simp, rfl, by simp⟩
      | false => exact ⟨rfl, rfl, rfl⟩

/-- A request that succeeds has been answered. -/
theorem answers_of_perform {s s' : World srv W} {w : W} {sid : Sid} {th : Thread} {d : Decision srv}
    {r : Req} {a : Reply} (h : s.perform w sid th d (.zoo r) = some (a, s')) (hd : d.lag = 0)
    (ha : a.rc = ZOK ∨ a.rc = ZNONODE) :
    ∃ b, Answers sid r s.nodes b s'.nodes ∧ a = b.received r := by
  obtain ⟨b, t, hans, -, hres⟩ := s.request_spec w sid hd r
  have hreq : s.request w sid d r = (a, s') := Option.some.inj h
  rw [hreq] at hres
  cases hf : d.fate with
  | answered =>
    simp only [hf] at hres
    exact ⟨b, by rw [hres.2]; exact hans, hres.1⟩
  | failed why applied =>
    simp only [hf] at hres
    rw [hres.1] at ha
    exact (ha.elim why.status_ne.1 why.status_ne.2).elim

/-- A request changes the nodes as it is answered, or not at all. -/
theorem nodes_request (s : World srv W) (w : W) (sid : Sid) (d : Decision srv) (r : Req) :
    (s.request w sid d r).2.nodes = s.nodes ∨
      ∃ a, Answers sid r s.nodes a (s.request w sid d r).2.nodes := by
  unfold request
  split
  · left
    unfold look
    cases d.fate with
    | answered => exact nodes_watch _ _ _ _
    | failed why applied => rfl
  · cases d.fate with
    | answered => exact .inr ⟨_, by rw [nodes_applied]; exact srv.documented d.choice sid r s.tree⟩
    | failed why applied =>
      cases applied with
      | true => exact .inr ⟨_, by rw [nodes_applied]; exact srv.documented d.choice sid r s.tree⟩
      | false => exact .inl rfl

/-- What an operation does to the records. -/
theorem perform_memory {s s' : World srv W} {w : W} {sid : Sid} {th : Thread} {d : Decision srv}
    {o : Op} {r : o.Res} (h : s.perform w sid th d o = some (r, s')) :
    s'.memory = Function.update s.memory w (o.effect th (s.memory w)) := by
  have hsame : s.memory = Function.update s.memory w (s.memory w) :=
    (Function.update_eq_self w s.memory).symm
  cases o with
  | zoo req =>
    obtain rfl := congrArg Prod.snd (Option.some.inj h)
    refine Eq.trans ?_ hsame
    unfold request look
    split
    · cases d.fate <;> simp
    · cases d.fate with
      | answered => simp
      | failed why applied => cases applied <;> simp
  | pthreadMutexLock =>
    simp only [perform] at h
    split at h
    · obtain rfl := congrArg Prod.snd (Option.some.inj h)
      rfl
    · cases h
  | store a =>
    obtain rfl := congrArg Prod.snd (Option.some.inj h)
    rfl
  | pthreadMutexInit =>
    obtain rfl := congrArg Prod.snd (Option.some.inj h)
    rfl
  | pthreadMutexUnlock =>
    obtain rfl := congrArg Prod.snd (Option.some.inj h)
    rfl
  | fault => cases h
  | _ =>
    obtain rfl := congrArg Prod.snd (Option.some.inj h)
    exact hsame

/-- What an operation does to the nodes, and to what the workers see of them: nothing, but that its
own worker sees more; or it is a change, which others need not see. -/
theorem perform_nodes {s s' : World srv W} {w : W} {sid : Sid} {th : Thread} {d : Decision srv}
    {o : Op} {r : o.Res} (h : s.perform w sid th d o = some (r, s')) :
    (s'.tree = s.tree ∧ ∀ v, s'.views v ⊆ s.views v) ∨
      ∃ req a, o = .zoo req ∧ Answers sid req s.nodes a s'.nodes ∧
        s'.views = fun v => if v = w then [] else s.tree :: s.views v := by
  cases o with
  | zoo req =>
    obtain rfl := congrArg Prod.snd (Option.some.inj h)
    have hans : Answers sid req s.nodes _ _ := srv.documented d.choice sid req s.tree
    unfold request
    split
    · left
      unfold look
      cases d.fate with
      | answered =>
        refine ⟨tree_watch .., fun v => ?_⟩
        simp only [views_watch]
        by_cases hv : v = w
        · subst hv
          rw [Function.update_self]
          exact List.take_subset ..
        · rw [Function.update_of_ne hv]
          exact List.Subset.refl _
      | failed why applied => exact ⟨rfl, fun v => List.Subset.refl _⟩
    · cases d.fate with
      | answered =>
        exact .inr ⟨req, _, rfl, by rwa [nodes_applied], views_applied ..⟩
      | failed why applied =>
        cases applied with
        | true =>
          exact .inr ⟨req, _, rfl, by rwa [nodes_applied], views_applied ..⟩
        | false => exact .inl ⟨rfl, fun v => List.Subset.refl _⟩
  | pthreadMutexLock =>
    simp only [perform] at h
    split at h
    · obtain rfl := congrArg Prod.snd (Option.some.inj h)
      exact .inl ⟨rfl, fun v => List.Subset.refl _⟩
    · cases h
  | fault => cases h
  | _ =>
    obtain rfl := congrArg Prod.snd (Option.some.inj h)
    exact .inl ⟨rfl, fun v => List.Subset.refl _⟩

/-- A read that succeeds has been answered from a state that the worker still sees. -/
theorem answers_of_read {s s' : World srv W} {w : W} {sid : Sid} {th : Thread} {d : Decision srv}
    {req : Req} {a : Reply} (h : s.perform w sid th d (.zoo req) = some (a, s'))
    (hread : req.isRead = true) (ha : a.rc = ZOK) :
    ∃ T ∈ s.tree :: s.views w, ∃ b t, Answers sid req (srv.nodes T) b t ∧ a = b.received req := by
  have hreq : s.request w sid d req = (a, s') := Option.some.inj h
  unfold request look at hreq
  rw [if_pos hread] at hreq
  cases hf : d.fate with
  | answered =>
    rw [hf] at hreq
    exact ⟨_, s.seen_mem w d.lag, _, _, srv.documented d.choice sid req (s.seen w d.lag),
      (Prod.mk.inj hreq).1.symm⟩
  | failed why applied =>
    rw [hf] at hreq
    rw [← (Prod.mk.inj hreq).1] at ha
    exact absurd ha why.status_ne.1

/-- A change that has been answered, or failed. -/
theorem answers_of_write {s s' : World srv W} {w : W} {sid : Sid} {th : Thread} {d : Decision srv}
    {req : Req} {a : Reply} (h : s.perform w sid th d (.zoo req) = some (a, s'))
    (hwrite : req.isRead = false) :
    (∃ b, Answers sid req s.nodes b s'.nodes ∧ a = b.received req) ∨
      a.rc ≠ ZOK ∧ (s'.nodes = s.nodes ∨ ∃ b, Answers sid req s.nodes b s'.nodes) := by
  have hreq : s.request w sid d req = (a, s') := Option.some.inj h
  have hans : Answers sid req s.nodes _ _ := srv.documented d.choice sid req s.tree
  unfold request at hreq
  rw [if_neg (by simp [hwrite])] at hreq
  cases hf : d.fate with
  | answered =>
    rw [hf] at hreq
    obtain ⟨rfl, rfl⟩ := Prod.mk.inj hreq
    exact .inl ⟨_, by rwa [nodes_applied], rfl⟩
  | failed why applied =>
    rw [hf] at hreq
    cases applied with
    | true =>
      obtain ⟨rfl, rfl⟩ := Prod.mk.inj hreq
      exact .inr ⟨why.status_ne.1, .inr ⟨_, by rwa [nodes_applied]⟩⟩
    | false =>
      obtain ⟨rfl, rfl⟩ := Prod.mk.inj hreq
      exact .inr ⟨why.status_ne.1, .inl rfl⟩

/-- What an operation leaves alone. -/
theorem perform_frame {s s' : World srv W} {w : W} {sid : Sid} {th : Thread} {d : Decision srv}
    {o : Op} {r : o.Res} {q : CString} (h : s.perform w sid th d o = some (r, s'))
    (hq : ∀ r, o = .zoo r → ¬ r.MayTouch q) :
    (s'.nodes q).map Znode.content = (s.nodes q).map Znode.content := by
  cases o with
  | zoo req =>
    obtain rfl := congrArg Prod.snd (Option.some.inj h)
    rcases s.nodes_request w sid d req with hn | ⟨a, hans⟩
    · rw [hn]
    · exact hans.frame (hq req rfl)
  | pthreadMutexLock =>
    simp only [perform] at h
    split at h
    · obtain rfl := congrArg Prod.snd (Option.some.inj h)
      rfl
    · cases h
  | fault => cases h
  | _ =>
    obtain rfl := congrArg Prod.snd (Option.some.inj h)
    rfl

/-- A thread goes on: it performs an operation, or enters a round of a loop. -/
def advance {α : Type} (s : World srv W) (w : W) (sid : Sid) (th : Thread) (d : Decision srv) :
    Code α → Option (Code α × World srv W)
  | .ret _ => none
  | .op o k => (s.perform w sid th d o).map fun x => (k x.1, x.2)
  | .iter body b k => some ((body b).bind (again body k), s)

end World

/-! ### Callbacks -/

/-- The callbacks of PHP's session module. -/
inductive Callback where
  | psOpen
  | psRead (g : Globals) (key : CString)
  | psWrite (key : CString) (val : Bytes)
  | psDestroy (key : CString)
  | psGc (g : Globals)
  | psClose
  deriving DecidableEq, Repr

/-- An outcome without data. -/
def Outcome.noData : Outcome Unit → Outcome (Option Bytes)
  | .success _ => .success none
  | .failure => .failure
  | .error message => .error message

/-- The code of a callback, for a worker whose session has the id `sid`. -/
def Callback.code (sid : Sid) : Callback → Code (Outcome (Option Bytes))
  | .psOpen => do return (← PhpZookeeper.psOpen).noData
  | .psRead g key => PhpZookeeper.psRead sid g key
  | .psWrite key val => do return (← PhpZookeeper.psWrite key val).noData
  | .psDestroy key => do return (← PhpZookeeper.psDestroy key).noData
  | .psGc g => do return (← PhpZookeeper.psGc g).noData
  | .psClose => do return (← PhpZookeeper.psClose).noData

/-! ### Configurations and steps -/

/-- A callback that has returned. -/
structure Returned (W : Type) where
  worker : W
  callback : Callback
  outcome : Outcome (Option Bytes)
  deriving DecidableEq

/-- A state of the system. -/
structure Config (srv : Server) (W : Type) where
  world : World srv W
  /-- The callback each worker's main thread runs, and what is left of it. -/
  main : W → Option (Callback × Code (Outcome (Option Bytes))) := fun _ => none
  /-- What is left of the `lock_watcher_fn` that each worker's other thread runs. -/
  watcher : W → Option (Code Unit) := fun _ => none
  /-- The callbacks that have returned, the last one first. -/
  history : List (Returned W) := []

/-- What happens in a step. -/
inductive Label (srv : Server) (W : Type) where
  /-- PHP's session module calls a callback. -/
  | start (w : W) (cb : Callback)
  /-- The main thread of a worker goes on. -/
  | main (w : W) (d : Decision srv)
  /-- A callback returns. -/
  | finish (w : W)
  /-- The client library tells a worker's watchers that its connection has changed. -/
  | sessionEvent (w : W)
  /-- The client library calls a worker's `lock_watcher_fn`. -/
  | notify (w : W)
  /-- The thread that runs `lock_watcher_fn` goes on. -/
  | watcher (w : W) (d : Decision srv)
  /-- `lock_watcher_fn` returns. -/
  | watcherDone (w : W)

namespace Config

variable {srv : Server} {W : Type} [DecidableEq W]

/-- The callback that a worker's main thread runs, and the operation it is about to perform. -/
def next (c : Config srv W) (w : W) : Option (Callback × Option Op) :=
  (c.main w).map fun x => (x.1, x.2.next)

/-- The operation that a step performs, if it is one of a thread. -/
def performs (c : Config srv W) : Label srv W → Option Op
  | .main w _ => (c.main w).bind fun x => x.2.next
  | .watcher w _ => (c.watcher w).bind Prog.next
  | _ => none

/-- The last callback of a worker that has returned. -/
def last (c : Config srv W) (w : W) : Option (Returned W) := c.history.find? fun e => e.worker = w

/-- A step, or `none` when it is not possible. -/
def step (sid : W → Sid) (c : Config srv W) : Label srv W → Option (Config srv W)
  | .start w cb =>
    match c.main w with
    | none => some { c with main := Function.update c.main w (some (cb, cb.code (sid w))) }
    | some _ => none
  | .main w d =>
    match c.main w with
    | some (cb, p) =>
      (c.world.advance w (sid w) .main d p).map fun x =>
        { c with world := x.2, main := Function.update c.main w (some (cb, x.1)) }
    | none => none
  | .finish w =>
    match c.main w with
    | some (cb, .ret a) =>
      some { c with main := Function.update c.main w none, history := ⟨w, cb, a⟩ :: c.history }
    | _ => none
  | .sessionEvent w =>
    if c.world.watches w = [] then none
    else some { c with world := { c.world with
      events := Function.update c.world.events w (c.world.events w + 1) } }
  | .notify w =>
    match c.watcher w with
    | none =>
      if c.world.events w = 0 then none
      else some { c with
        world := { c.world with
          events := Function.update c.world.events w (c.world.events w - 1) }
        watcher := Function.update c.watcher w (some (lockWatcherFn (sid w))) }
    | some _ => none
  | .watcher w d =>
    match c.watcher w with
    | some p =>
      (c.world.advance w (sid w) .watcher d p).map fun x =>
        { c with world := x.2, watcher := Function.update c.watcher w (some x.1) }
    | none => none
  | .watcherDone w =>
    match c.watcher w with
    | some (.ret _) => some { c with watcher := Function.update c.watcher w none }
    | _ => none

/-- The state after a step; a step that is not possible is left out. -/
def after (sid : W → Sid) (c : Config srv W) (l : Label srv W) : Config srv W :=
  (c.step sid l).getD c

theorem after_of_step {sid : W → Sid} {c c' : Config srv W} {l : Label srv W}
    (h : c.step sid l = some c') : c.after sid l = c' := by
  rw [after, h]
  rfl

/-- The state after a list of steps. -/
def run (sid : W → Sid) (c : Config srv W) (ls : List (Label srv W)) : Config srv W :=
  ls.foldl (after sid) c

/-- `Reaches sid ok c₀ c`: there is a run from `c₀` to `c` each of whose steps is `ok`. -/
inductive Reaches (sid : W → Sid) (ok : Config srv W → Label srv W → Prop) (c₀ : Config srv W) :
    Config srv W → Prop where
  | refl : Reaches sid ok c₀ c₀
  | step {c c' : Config srv W} {l : Label srv W} : Reaches sid ok c₀ c → ok c l →
      c.step sid l = some c' → Reaches sid ok c₀ c'

variable {sid : W → Sid} {ok : Config srv W → Label srv W → Prop} {c₀ c : Config srv W}

theorem Reaches.after (h : Reaches sid ok c₀ c) {l : Label srv W} (hok : ok c l) :
    Reaches sid ok c₀ (c.after sid l) := by
  unfold Config.after
  cases hstep : c.step sid l with
  | none => exact h
  | some c' => exact h.step hok hstep

/-- Each step of the list passes the check. -/
def checks (sid : W → Sid) (check : Config srv W → Label srv W → Bool) :
    Config srv W → List (Label srv W) → Bool
  | _, [] => true
  | c, l :: ls => check c l && checks sid check (c.after sid l) ls

theorem Reaches.run_of_checks {check : Config srv W → Label srv W → Bool}
    (hcheck : ∀ c l, check c l = true → ok c l) (h : Reaches sid ok c₀ c) {ls : List (Label srv W)}
    (hls : c.checks sid check ls = true) : Reaches sid ok c₀ (c.run sid ls) := by
  induction ls generalizing c with
  | nil => exact h
  | cons l ls ih =>
    obtain ⟨hl, hls⟩ := Bool.and_eq_true_iff.mp hls
    exact ih (h.after (hcheck c l hl)) hls

theorem Reaches.run (h : Reaches sid ok c₀ c) (hok : ∀ c l, ok c l) (ls : List (Label srv W)) :
    Reaches sid ok c₀ (c.run sid ls) := by
  induction ls generalizing c with
  | nil => exact h
  | cons l ls ih => exact ih (h.after (hok c l))

end Config

/-! ### Two workers and a service -/

/-- The ids of the two workers' connections. -/
def twoSids : Bool → Sid := fun w => if w then 1 else 0

theorem twoSids_injective : Function.Injective twoSids := by
  intro v w
  cases v <;> cases w <;> decide

/-- A step of a worker's main thread, at the given time. -/
def mainAt (w : Bool) (time : ℤ) : Label treeServer Bool := .main w { choice := { time := time } }

/-- Steps of a worker's main thread. -/
def mainSteps (w : Bool) (n : ℕ) : List (Label treeServer Bool) := List.replicate n (mainAt w 0)

/-- Steps of the thread that runs a worker's `lock_watcher_fn`. -/
def watcherSteps (w : Bool) (n : ℕ) : List (Label treeServer Bool) :=
  List.replicate n (.watcher w { choice := {} })

/-- A callback of a worker, from its start to its return. -/
def callbackSteps (w : Bool) (cb : Callback) : List (Label treeServer Bool) :=
  .start w cb :: mainSteps w 60 ++ [.finish w]

/-- Two workers that have done nothing yet, and no session. -/
def twoWorkers : Config treeServer Bool where
  world := { tree := [(phpZkParentNode, {})] }

end PhpZookeeper
