import PhpZookeeper.System.Holding
import PhpZookeeper.Theory.Unwinding

/-!
# What happens to a worker

The system once more, seen from its workers: an *event* of a worker shows the requests it makes
with the replies it gets, and how its callbacks end, and the service is any that answers as
documented, from the last state or from one that the worker may still see; a request may fail, too,
and may have been applied when it does. What a worker does next
depends on its own events only; what it is answered depends on the service. Each step of a
`Config` is an event (`Config.step_ensemble`).
-/

namespace PhpZookeeper

open Theory Prog Status

/-! ### Workers -/

/-- What a worker has: its record, and what is left of the code of its two threads. -/
structure WorkerState where
  memory : PhpZookeeperSession := {}
  main : Option (Code (Outcome (Option Bytes))) := none
  watcher : Option (Code Unit) := none

/-- What happens to a worker. A thread that goes on makes a request, and gets its reply, or does
something else. -/
inductive Event where
  | start (cb : Callback)
  | main (talk : Option (Req × Reply))
  | finish (out : Outcome (Option Bytes))
  | sessionEvent
  | notify
  | watcher (talk : Option (Req × Reply))
  | watcherDone
  deriving DecidableEq

/-- The request of an event, with its reply. -/
def Event.talk : Event → Option (Req × Reply)
  | .main talk | .watcher talk => talk
  | _ => none

/-- One operation of a thread, which makes the request `talk` if it makes one. -/
def Op.Does (th : Thread) (talk : Option (Req × Reply)) (o : Op) (m : PhpZookeeperSession)
    (r : o.Res) (m' : PhpZookeeperSession) : Prop :=
  m' = o.effect th m ∧
    match o, r with
    | .zoo req, a => talk = some (req, a)
    | .load, m₁ => talk = none ∧ m₁ = m
    | .pthreadMutexLock, _ => talk = none ∧ m.lock.pmutex = none
    | .fault, _ => False
    | _, _ => talk = none

/-- A thread goes on: it performs an operation, or enters a round of a loop. -/
def GoesOn (th : Thread) (talk : Option (Req × Reply)) {α : Type} (m : PhpZookeeperSession) :
    Code α → Code α → PhpZookeeperSession → Prop
  | .ret _, _, _ => False
  | .op o k, p', m' => ∃ r, o.Does th talk m r m' ∧ p' = k r
  | .iter body b k, p', m' => talk = none ∧ p' = (body b).bind (again body k) ∧ m' = m

/-- What an event is to its worker. -/
inductive WorkerState.Step (sid : Sid) : WorkerState → Event → WorkerState → Prop where
  | start {u : WorkerState} {cb : Callback} : u.main = none →
      WorkerState.Step sid u (.start cb) { u with main := some (cb.code sid) }
  | main {u : WorkerState} {p p' : Code (Outcome (Option Bytes))} {talk : Option (Req × Reply)}
      {m : PhpZookeeperSession} : u.main = some p → GoesOn .main talk u.memory p p' m →
      WorkerState.Step sid u (.main talk) { u with main := some p', memory := m }
  | finish {u : WorkerState} {out : Outcome (Option Bytes)} : u.main = some (.ret out) →
      WorkerState.Step sid u (.finish out) { u with main := none }
  | sessionEvent {u : WorkerState} : WorkerState.Step sid u .sessionEvent u
  | notify {u : WorkerState} : u.watcher = none →
      WorkerState.Step sid u .notify { u with watcher := some (lockWatcherFn sid) }
  | watcher {u : WorkerState} {p p' : Code Unit} {talk : Option (Req × Reply)}
      {m : PhpZookeeperSession} : u.watcher = some p → GoesOn .watcher talk u.memory p p' m →
      WorkerState.Step sid u (.watcher talk) { u with watcher := some p', memory := m }
  | watcherDone {u : WorkerState} {a : Unit} : u.watcher = some (.ret a) →
      WorkerState.Step sid u .watcherDone { u with watcher := none }

/-! ### The service -/

/-- What the service holds: the nodes, and for each worker the states before changes by others that
it has not seen, the nodes it watches, and its notifications. -/
structure Service (W : Type) where
  nodes : Nodes
  views : W → List Nodes := fun _ => []
  watches : W → List CString := fun _ => []
  events : W → ℕ := fun _ => 0

namespace Service

variable {W : Type}

/-- The watches on a node that has been touched fire, once. -/
def fire (s : Service W) : Option CString → Service W
  | none => s
  | some p =>
    { s with
      watches := fun w => (s.watches w).filter fun q => q != p
      events := fun w => if p ∈ s.watches w then s.events w + 1 else s.events w }

@[simp] theorem nodes_fire (s : Service W) (p : Option CString) : (s.fire p).nodes = s.nodes := by
  cases p <;> rfl

@[simp] theorem views_fire (s : Service W) (p : Option CString) : (s.fire p).views = s.views := by
  cases p <;> rfl

variable [DecidableEq W]

/-- A node's `exists` that is answered leaves a watch. -/
def watch (s : Service W) (w : W) (r : Req) (a : Reply) : Service W :=
  match r with
  | .zooWexists p =>
    if (a.rc = ZOK ∨ a.rc = ZNONODE) ∧ p ∉ s.watches w then
      { s with watches := Function.update s.watches w (p :: s.watches w) }
    else s
  | _ => s

@[simp] theorem nodes_watch (s : Service W) (w : W) (r : Req) (a : Reply) :
    (s.watch w r a).nodes = s.nodes := by
  cases r <;> simp only [watch]
  split <;> rfl

@[simp] theorem views_watch (s : Service W) (w : W) (r : Req) (a : Reply) :
    (s.watch w r a).views = s.views := by
  cases r <;> simp only [watch]
  split <;> rfl

@[simp] theorem events_watch (s : Service W) (w : W) (r : Req) (a : Reply) :
    (s.watch w r a).events = s.events := by
  cases r <;> simp only [watch]
  split <;> rfl

/-- After a read: the worker sees at least what it has seen. -/
def looked (s : Service W) (w : W) (lag : ℕ) (r : Req) (a : Reply) : Service W :=
  { s with views := Function.update s.views w ((s.views w).take lag) }.watch w r a

/-- After a change by the worker `w`: the others may still see the state before it. -/
def changed (s : Service W) (w : W) (t : Nodes) (r : Req) (a : Reply) : Service W :=
  { s with
    nodes := t
    views := fun v => if v = w then [] else s.nodes :: s.views v }.fire (r.touched a)

/-- What the worker is told when a change has been answered by `a`: that, or the request fails. -/
def Told (r : Req) (a b : Reply) : Prop :=
  b = a.received r ∨ ∃ why : Failure, b = { rc := why.status }

/-- What an event is to the service. -/
inductive Step (sid : Sid) (w : W) (s : Service W) : Event → Service W → Prop where
  /-- A read is answered from a state that the worker may see. -/
  | read {e : Event} {r : Req} {a : Reply} {T : Nodes} {lag : ℕ} :
      e.talk = some (r, a.received r) → r.isRead = true →
      (s.nodes :: s.views w)[lag]? = some T → Answers sid r T a T →
      Step sid w s e (s.looked w lag r a)
  | change {e : Event} {r : Req} {a b : Reply} {t : Nodes} :
      e.talk = some (r, b) → Told r a b → r.isRead = false → Answers sid r s.nodes a t →
      Step sid w s e (s.changed w t r a)
  /-- A request fails, and has not been applied. -/
  | failed {e : Event} {r : Req} {why : Failure} : e.talk = some (r, { rc := why.status }) →
      Step sid w s e s
  | sessionEvent : s.watches w ≠ [] → Step sid w s .sessionEvent
      { s with events := Function.update s.events w (s.events w + 1) }
  | notify : s.events w ≠ 0 → Step sid w s .notify
      { s with events := Function.update s.events w (s.events w - 1) }
  /-- Nothing. -/
  | quiet {e : Event} : e.talk = none → e ≠ .sessionEvent → e ≠ .notify → Step sid w s e s

end Service

/-! ### Workers and a service -/

/-- Workers, and the service they talk to. -/
structure Ensemble (W : Type) where
  worker : W → WorkerState := fun _ => {}
  service : Service W

/-- One event of a worker; `ok` says which callbacks may be called. -/
structure Ensemble.Step {W : Type} [DecidableEq W] (sid : W → Sid) (ok : W → Callback → Prop)
    (c : Ensemble W) (l : W × Event) (c' : Ensemble W) : Prop where
  allowed : ∀ cb, l.2 = .start cb → ok l.1 cb
  worker : (c.worker l.1).Step (sid l.1) l.2 (c'.worker l.1)
  others : ∀ v, v ≠ l.1 → c'.worker v = c.worker v
  service : c.service.Step (sid l.1) l.1 l.2 c'.service

/-! ### The steps of a `Config` -/

section Steps

variable {srv : Server} {W : Type}

/-- The service of a world. -/
def World.service (s : World srv W) : Service W where
  nodes := s.nodes
  views w := (s.views w).map srv.nodes
  watches := s.watches
  events := s.events

/-- A state of the system, as its workers see it. -/
def Config.ensemble (c : Config srv W) : Ensemble W where
  worker w :=
    { memory := c.world.memory w
      main := (c.main w).map Prod.snd
      watcher := c.watcher w }
  service := c.world.service

theorem World.service_fire (s : World srv W) (p : Option CString) :
    (s.fire p).service = s.service.fire p := by
  cases p <;> rfl

/-- The worker of a step. -/
def Label.worker : Label srv W → W
  | .start w _ | .main w _ | .finish w | .sessionEvent w | .notify w | .watcher w _
  | .watcherDone w => w

variable [DecidableEq W] {sid : W → Sid} {ok : W → Callback → Prop} {c c' : Config srv W}

theorem World.service_watch (s : World srv W) (w : W) (r : Req) (a : Reply) :
    (s.watch w r a).service = s.service.watch w r a := by
  cases r with
  | zooWexists p =>
    simp only [World.watch, Service.watch]
    have hwatches : s.service.watches = s.watches := rfl
    rw [hwatches]
    split_ifs <;> rfl
  | _ => rfl

/-- A request. -/
theorem World.step_service {s s' : World srv W} {w : W} {sid : Sid} {th : Thread}
    {d : Decision srv} {r : Req} {a : Reply}
    (h : s.perform w sid th d (.zoo r) = some (a, s')) (hlag : d.lag ≤ (s.views w).length)
    {e : Event} (he : e.talk = some (r, a)) : s.service.Step sid w e s'.service := by
  have hreq : s.request w sid d r = (a, s') := Option.some.inj h
  unfold World.request at hreq
  split_ifs at hreq with hread
  · have hans := srv.documented d.choice sid r (s.seen w d.lag)
    have hseen : (s.service.nodes :: s.service.views w)[d.lag]? =
        some (srv.nodes (s.seen w d.lag)) := by
      have hlt : d.lag < (s.tree :: s.views w).length := Nat.lt_succ_of_le hlag
      have hmap : s.service.nodes :: s.service.views w = (s.tree :: s.views w).map srv.nodes := rfl
      rw [hmap, List.getElem?_map, World.seen, List.getElem?_eq_getElem hlt]
      rfl
    rw [hans.of_isRead hread] at hans
    have hlooked : World.service
          { s with views := Function.update s.views w ((s.views w).take d.lag) } =
        { s.service with
          views := Function.update s.service.views w ((s.service.views w).take d.lag) } := by
      refine congrArg (fun views => ({ s.service with views := views } : Service W)) ?_
      funext v
      by_cases hv : v = w
      · subst hv
        simp [World.service, List.map_take]
      · simp [World.service, hv]
    unfold World.look at hreq
    cases hfate : d.fate with
    | answered =>
      rw [hfate] at hreq
      obtain ⟨rfl, rfl⟩ := Prod.mk.inj hreq
      rw [World.service_watch, hlooked]
      exact .read he hread hseen hans
    | failed why applied =>
      rw [hfate] at hreq
      obtain ⟨rfl, rfl⟩ := Prod.mk.inj hreq
      exact .failed he
  · have hans := srv.documented d.choice sid r s.tree
    have hchanged : ∀ t : srv.State, World.service
          { s with tree := t, views := fun v => if v = w then [] else s.tree :: s.views v } =
        { s.service with
          nodes := srv.nodes t
          views := fun v => if v = w then [] else s.service.nodes :: s.service.views v } := by
      intro t
      refine congrArg (fun views =>
        ({ s.service with nodes := srv.nodes t, views := views } : Service W)) ?_
      funext v
      by_cases hv : v = w <;> simp [World.service, World.nodes, hv]
    have happlied : ∀ b, e.talk = some (r, b) →
        Service.Told r (srv.serve d.choice sid r s.tree).1 b →
        s.service.Step sid w e (s.applied w r (srv.serve d.choice sid r s.tree)).service := by
      intro b hb htold
      unfold World.applied
      rw [World.service_fire, hchanged]
      exact .change hb htold (by simpa using hread) hans
    cases hfate : d.fate with
    | answered =>
      rw [hfate] at hreq
      obtain ⟨rfl, rfl⟩ := Prod.mk.inj hreq
      exact happlied _ he (.inl rfl)
    | failed why applied =>
      rw [hfate] at hreq
      cases applied with
      | true =>
        obtain ⟨rfl, rfl⟩ := Prod.mk.inj hreq
        exact happlied _ he (.inr ⟨why, rfl⟩)
      | false =>
        obtain ⟨rfl, rfl⟩ := Prod.mk.inj hreq
        exact .failed he

/-- One operation of a thread. -/
theorem World.does_of_perform {s s' : World srv W} {w : W} {sid : Sid} {th : Thread}
    {d : Decision srv} {o : Op} {r : o.Res} (h : s.perform w sid th d o = some (r, s'))
    (hlag : d.lag ≤ (s.views w).length) :
    s'.memory = Function.update s.memory w (s'.memory w) ∧
      ∃ talk, o.Does th talk (s.memory w) r (s'.memory w) ∧
        ∀ e : Event, e.talk = talk → e ≠ .sessionEvent → e ≠ .notify →
          s.service.Step sid w e s'.service := by
  have hmem := World.perform_memory h
  have hself : s'.memory w = o.effect th (s.memory w) := by rw [hmem, Function.update_self]
  refine ⟨by rw [hself]; exact hmem, ?_⟩
  cases o with
  | zoo req => exact ⟨some (req, r), ⟨hself, rfl⟩, fun e he _ _ => World.step_service h hlag he⟩
  | fault => exact r.elim
  | load =>
    obtain ⟨rfl, rfl⟩ := Prod.mk.inj (Option.some.inj h)
    exact ⟨none, ⟨hself, rfl, rfl⟩, fun e => .quiet⟩
  | pthreadMutexLock =>
    simp only [World.perform] at h
    split_ifs at h with hfree
    obtain rfl := (Prod.mk.inj (Option.some.inj h)).2
    exact ⟨none, ⟨hself, rfl, hfree⟩, fun e => .quiet⟩
  | _ =>
    obtain rfl := (Prod.mk.inj (Option.some.inj h)).2
    exact ⟨none, ⟨hself, rfl⟩, fun e => .quiet⟩

/-- A thread goes on. -/
theorem World.goesOn_of_advance {α : Type} {s s' : World srv W} {w : W} {sid : Sid} {th : Thread}
    {d : Decision srv} {p p' : Code α} (h : s.advance w sid th d p = some (p', s'))
    (hlag : d.lag ≤ (s.views w).length) :
    s'.memory = Function.update s.memory w (s'.memory w) ∧
      ∃ talk, GoesOn th talk (s.memory w) p p' (s'.memory w) ∧
        ∀ e : Event, e.talk = talk → e ≠ .sessionEvent → e ≠ .notify →
          s.service.Step sid w e s'.service := by
  cases p with
  | ret a => cases h
  | op o k =>
    obtain ⟨⟨r, s₁⟩, hperf, hk⟩ := Option.map_eq_some_iff.mp h
    obtain ⟨rfl, rfl⟩ := Prod.mk.inj hk
    obtain ⟨hmem, talk, hdoes, hstep⟩ := World.does_of_perform hperf hlag
    exact ⟨hmem, talk, ⟨r, hdoes, rfl⟩, hstep⟩
  | iter body b k =>
    obtain ⟨rfl, rfl⟩ := Prod.mk.inj (Option.some.inj h)
    exact ⟨(Function.update_eq_self ..).symm, none, ⟨rfl, rfl, rfl⟩, fun e => .quiet⟩

/-- An event of the worker `w`, of which the others are left as they are. -/
theorem Config.step_of_worker {w : W} {e : Event} (hok : ∀ cb, e = .start cb → ok w cb)
    (hmain : ∀ v, v ≠ w → c'.main v = c.main v) (hwatcher : ∀ v, v ≠ w → c'.watcher v = c.watcher v)
    (hmem : ∀ v, v ≠ w → c'.world.memory v = c.world.memory v)
    (hworker : (c.ensemble.worker w).Step (sid w) e (c'.ensemble.worker w))
    (hservice : c.world.service.Step (sid w) w e c'.world.service) :
    Ensemble.Step sid ok c.ensemble (w, e) c'.ensemble where
  allowed := hok
  worker := hworker
  others v hv := by simp only [Config.ensemble, hmain v hv, hwatcher v hv, hmem v hv]
  service := hservice

/-- **Each step is an event.** -/
theorem Config.step_ensemble {l : Label srv W} (h : c.step sid l = some c')
    (hlag : ∀ w d, l = .main w d ∨ l = .watcher w d → d.lag ≤ (c.world.views w).length)
    (hok : ∀ w cb, l = .start w cb → ok w cb) :
    ∃ e, Ensemble.Step sid ok c.ensemble (l.worker, e) c'.ensemble := by
  have hsame : ∀ {α : Type 1} {f : W → α} {w : W} {x : α} (v : W), v ≠ w →
      Function.update f w x v = f v := fun v hv => Function.update_of_ne hv ..
  cases l with
  | start w cb =>
    simp only [Config.step] at h
    cases hmain : c.main w with
    | some x => simp [hmain] at h
    | none =>
      rw [hmain, Option.some.injEq] at h
      subst h
      refine ⟨.start cb, Config.step_of_worker (w := w) ?_ hsame (fun _ _ => rfl)
        (fun _ _ => rfl) ?_ (.quiet rfl (by simp) (by simp))⟩
      · rintro _ ⟨⟩
        exact hok w cb rfl
      · have hstep : WorkerState.Step (sid w) (c.ensemble.worker w) (.start cb) _ :=
          .start (by simp [Config.ensemble, hmain])
        simpa [Config.ensemble] using hstep
  | main w d =>
    simp only [Config.step] at h
    cases hmain : c.main w with
    | none => simp [hmain] at h
    | some x =>
      obtain ⟨cb, p⟩ := x
      rw [hmain] at h
      obtain ⟨⟨p', s'⟩, hadv, rfl⟩ := Option.map_eq_some_iff.mp h
      obtain ⟨hmem, talk, hgoes, hservice⟩ :=
        World.goesOn_of_advance hadv (hlag w d (.inl rfl))
      refine ⟨.main talk, Config.step_of_worker (w := w) (by simp) hsame (fun _ _ => rfl)
        (fun v hv => ?_) ?_ (hservice _ rfl (by simp) (by simp))⟩
      · rw [hmem, Function.update_of_ne hv]
      · have hstep : WorkerState.Step (sid w) (c.ensemble.worker w) _ _ :=
          .main (by simp [Config.ensemble, hmain]) hgoes
        simpa [Config.ensemble] using hstep
  | finish w =>
    simp only [Config.step] at h
    split at h
    · next cb a hmain =>
      rw [Option.some.injEq] at h
      subst h
      refine ⟨.finish a, Config.step_of_worker (w := w) (by simp) hsame (fun _ _ => rfl)
        (fun _ _ => rfl) ?_ (.quiet rfl (by simp) (by simp))⟩
      have hstep : WorkerState.Step (sid w) (c.ensemble.worker w) (.finish a) _ :=
        .finish (by simp [Config.ensemble, hmain])
      simpa [Config.ensemble] using hstep
    · cases h
  | sessionEvent w =>
    simp only [Config.step] at h
    split at h
    · cases h
    · next hwatches =>
      rw [Option.some.injEq] at h
      subst h
      exact ⟨.sessionEvent, Config.step_of_worker (w := w) (by simp) (fun _ _ => rfl)
        (fun _ _ => rfl) (fun _ _ => rfl) .sessionEvent (.sessionEvent hwatches)⟩
  | notify w =>
    simp only [Config.step] at h
    cases hwatcher : c.watcher w with
    | some p => simp [hwatcher] at h
    | none =>
      rw [hwatcher] at h
      dsimp only at h
      split at h
      · cases h
      · next hevents =>
        rw [Option.some.injEq] at h
        subst h
        refine ⟨.notify, Config.step_of_worker (w := w) (by simp) (fun _ _ => rfl) hsame
          (fun _ _ => rfl) ?_ (.notify hevents)⟩
        have hstep : WorkerState.Step (sid w) (c.ensemble.worker w) .notify _ :=
          .notify (by simp [Config.ensemble, hwatcher])
        simpa [Config.ensemble] using hstep
  | watcher w d =>
    simp only [Config.step] at h
    cases hwatcher : c.watcher w with
    | none => simp [hwatcher] at h
    | some p =>
      rw [hwatcher] at h
      obtain ⟨⟨p', s'⟩, hadv, rfl⟩ := Option.map_eq_some_iff.mp h
      obtain ⟨hmem, talk, hgoes, hservice⟩ :=
        World.goesOn_of_advance hadv (hlag w d (.inr rfl))
      refine ⟨.watcher talk, Config.step_of_worker (w := w) (by simp) (fun _ _ => rfl) hsame
        (fun v hv => ?_) ?_ (hservice _ rfl (by simp) (by simp))⟩
      · rw [hmem, Function.update_of_ne hv]
      · have hstep : WorkerState.Step (sid w) (c.ensemble.worker w) _ _ :=
          .watcher (by simp [Config.ensemble, hwatcher]) hgoes
        simpa [Config.ensemble] using hstep
  | watcherDone w =>
    simp only [Config.step] at h
    split at h
    · next a hwatcher =>
      rw [Option.some.injEq] at h
      subst h
      refine ⟨.watcherDone, Config.step_of_worker (w := w) (by simp) (fun _ _ => rfl) hsame
        (fun _ _ => rfl) ?_ (.quiet rfl (by simp) (by simp))⟩
      have hstep : WorkerState.Step (sid w) (c.ensemble.worker w) .watcherDone _ :=
        .watcherDone (a := a) (by simp [Config.ensemble, hwatcher])
      simpa [Config.ensemble] using hstep
    · cases h

/-- The steps in which a read is answered from a state that the worker may still see, if it is
answered, and each callback is one the worker may call. -/
structure Config.Works (ok : W → Callback → Prop) (c : Config srv W) (l : Label srv W) : Prop where
  lag : ∀ w d, l = .main w d ∨ l = .watcher w d → d.lag ≤ (c.world.views w).length
  call : ∀ w cb, l = .start w cb → ok w cb

/-- **Each run is a list of events.** -/
theorem Config.events_of_reaches {c₀ : Config srv W}
    (h : Config.Reaches sid (Config.Works ok) c₀ c) :
    ∃ tr, Steps (Ensemble.Step sid ok) c₀.ensemble tr c.ensemble := by
  induction h with
  | refl => exact ⟨[], .nil⟩
  | step _ hok hstep ih =>
    obtain ⟨tr, htr⟩ := ih
    obtain ⟨e, he⟩ := Config.step_ensemble hstep hok.lag hok.call
    exact ⟨tr ++ [_], htr.append (.cons he .nil)⟩

end Steps

end PhpZookeeper
