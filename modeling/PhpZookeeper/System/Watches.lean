import PhpZookeeper.Session.Effects
import PhpZookeeper.System.Exclusion

/-!
# Whom `lock_watcher_fn` is called for

A watch is set with a pointer to the lock in the session record, and outlives the lock when its
node has not changed by the time `PS_CLOSE` frees the path and destroys the lock; so does a
notification that is still to come. The path is memory of the request, so it is freed at the end of
the request too, and `PS_CLOSE` does nothing for a lock that `PS_READ` has given up. A `WatchLog`
goes with each worker of a run and says which watches and notifications have outlived an end of the
lock. As long as none does, `lock_watcher_fn` is only called for a lock that has been initialised,
and neither been destroyed nor lost its path since (`watcher_alive`); otherwise nothing keeps the
library from calling it for one that has (`dead_of_endsLock`, `dead_of_requestEnd`), and
`watcher_dead` is a run in which it does.
-/

namespace PhpZookeeper

open Theory Prog

variable {srv : Server} {W : Type}

/-! ### The log -/

/-- What has become of the watches of one worker's `lock_watcher_fn`. -/
structure WatchLog where
  /-- `zkr_lock_init` has run. -/
  initialised : Bool := false
  /-- The lock has a path, `lock_path` of `php_zookeeper_sess_lock`, that has not been freed. -/
  path : Bool := false
  /-- The watches that were set before the lock ended last: `zkr_lock_destroy` ran, or its path was
  freed. -/
  outlived : List CString := []
  /-- Of each notification to come, the next one first: whether the lock has ended since a watch was
  set that it is for. -/
  events : List Bool := []
  deriving DecidableEq, Repr

namespace WatchLog

/-- The lock ends; its worker has the given watches. -/
def bury (g : WatchLog) (watches : List CString) : WatchLog :=
  { g with outlived := watches, events := g.events.map fun _ => true }

/-- Some of the watches of the worker `w` have fired. -/
def fire (g : WatchLog) (s s' : World srv W) (w : W) : WatchLog :=
  { g with
    outlived := g.outlived.filter fun p => p ∈ s'.watches w
    events := g.events ++
      List.replicate (s'.events w - s.events w) (g.outlived.any fun p => p ∉ s'.watches w) }

/-- What an operation of the worker itself does, which has the given watches. -/
def perform (g : WatchLog) (watches : List CString) : Op → WatchLog
  | .store (.lockInit _ _) => { g with path := true }
  | .pthreadMutexInit => { g with initialised := true }
  | .efreePath => { g.bury watches with path := false }
  | .store .lockDestroy => g.bury watches
  | _ => g

/-- The request of the worker ends, whose memory `lock_path` is; the worker has the given
watches. -/
def requestEnd (g : WatchLog) (watches : List CString) : WatchLog :=
  if g.path then { g.bury watches with path := false } else g

end WatchLog

variable [DecidableEq W]

namespace Config

/-- The operation that the worker `w` performs in a step. -/
def performsOf (c : Config srv W) (w : W) : Label srv W → Option Op
  | .main v d => if v = w then c.performs (.main v d) else none
  | .watcher v d => if v = w then c.performs (.watcher v d) else none
  | _ => none

end Config

/-- The log of the worker `w` after the step `l` from `c` to `c'`. -/
def WatchLog.after (g : WatchLog) (w : W) (c c' : Config srv W) (l : Label srv W) : WatchLog :=
  match l with
  | .notify v => if v = w then { g with events := g.events.tail } else g
  | .sessionEvent v => if v = w then { g with events := g.events ++ [!g.outlived.isEmpty] } else g
  | l =>
    match c.performsOf w l with
    | some o => (g.fire c.world c'.world w).perform (c'.world.watches w) o
    | none => g.fire c.world c'.world w

/-- What happens in a run. -/
inductive Happening (srv : Server) (W : Type) where
  /-- A step of the workers' threads and of the library's. -/
  | step (l : Label srv W)
  /-- The request of the worker ends, in none of its callbacks. -/
  | requestEnd (w : W)

/-- `Followed sid ok c₀ c g`: a run from `c₀` to `c`, in which what happens is `ok`, leaves the logs
`g`; clients that are no workers change the nodes as they like. -/
inductive Followed (sid : W → Sid) (ok : Config srv W → (W → WatchLog) → Happening srv W → Prop)
    (c₀ : Config srv W) : Config srv W → (W → WatchLog) → Prop where
  | refl : Followed sid ok c₀ c₀ fun _ => {}
  | step {c c' : Config srv W} {g : W → WatchLog} {l : Label srv W} : Followed sid ok c₀ c g →
      ok c g (.step l) → c.step sid l = some c' →
      Followed sid ok c₀ c' fun w => (g w).after w c c' l
  | requestEnd {c : Config srv W} {g : W → WatchLog} {w : W} : Followed sid ok c₀ c g →
      ok c g (.requestEnd w) → c.main w = none →
      Followed sid ok c₀ c (Function.update g w ((g w).requestEnd (c.world.watches w)))
  | others {c : Config srv W} {g : W → WatchLog} (tree : srv.State) (views : W → List srv.State)
      (touched : Option CString) : Followed sid ok c₀ c g →
      Followed sid ok c₀ { c with world := c.world.others tree views touched } fun w =>
        (g w).fire c.world (c.world.others tree views touched) w

/-! ### What happens to watches -/

/-- What an operation does to the watches and the notifications: those of one node fire, or its
worker watches another node. -/
theorem World.perform_watches {s s' : World srv W} {w : W} {sid : Sid} {th : Thread}
    {d : Decision srv} {o : Op} {r : o.Res} (h : s.perform w sid th d o = some (r, s')) :
    (∃ p, s'.watches = (s.fire p).watches ∧ s'.events = (s.fire p).events) ∨
      ∃ p, o = .zoo (.zooWexists p) ∧
        s'.watches = Function.update s.watches w (p :: s.watches w) ∧ s'.events = s.events := by
  have hsame : ∃ p, s.watches = (s.fire p).watches ∧ s.events = (s.fire p).events :=
    ⟨none, rfl, rfl⟩
  have hwatch : ∀ (t : World srv W) (req : Req) (a : Reply), t.watches = s.watches →
      t.events = s.events →
      ((t.watch w req a).watches = s.watches ∧ (t.watch w req a).events = s.events) ∨
        ∃ p, req = .zooWexists p ∧
          (t.watch w req a).watches = Function.update s.watches w (p :: s.watches w) ∧
          (t.watch w req a).events = s.events := by
    intro t req a hw he
    cases req with
    | zooWexists p =>
      simp only [watch]
      split_ifs
      · exact .inr ⟨p, rfl, by rw [← hw], he⟩
      · exact .inl ⟨hw, he⟩
    | _ => exact .inl ⟨hw, he⟩
  have happlied : ∀ (req : Req) (a : Reply × srv.State),
      (s.applied w req a).watches = (s.fire (req.touched a.1)).watches ∧
        (s.applied w req a).events = (s.fire (req.touched a.1)).events := by
    intro req a
    unfold applied fire
    cases req.touched a.1 <;> exact ⟨rfl, rfl⟩
  cases o with
  | zoo req =>
    obtain rfl := congrArg Prod.snd (Option.some.inj h)
    unfold request look
    split_ifs
    · cases d.fate with
      | answered =>
        rcases hwatch { s with views := Function.update s.views w ((s.views w).take d.lag) } req
            (srv.serve d.choice sid req (s.seen w d.lag)).1 rfl rfl with
          ⟨hw, he⟩ | ⟨p, rfl, hw, he⟩
        · exact .inl ⟨none, hw, he⟩
        · exact .inr ⟨p, rfl, hw, he⟩
      | failed why applied => exact .inl hsame
    · cases d.fate with
      | answered => exact .inl ⟨_, happlied req _⟩
      | failed why applied =>
        cases applied with
        | true => exact .inl ⟨_, happlied req _⟩
        | false => exact .inl hsame
  | pthreadMutexLock =>
    simp only [perform] at h
    split at h
    · obtain rfl := congrArg Prod.snd (Option.some.inj h)
      exact .inl hsame
    · cases h
  | fault => cases h
  | _ =>
    obtain rfl := congrArg Prod.snd (Option.some.inj h)
    exact .inl hsame

/-- Going on performs the next operation, or neither changes the world nor performs one. -/
theorem World.advance_cases {α : Type} {s s' : World srv W} {w : W} {sid : Sid} {th : Thread}
    {d : Decision srv} {p p' : Code α} (h : s.advance w sid th d p = some (p', s')) :
    (∃ o k r, p = .op o k ∧ p' = k r ∧ s.perform w sid th d o = some (r, s')) ∨
      p.next = none ∧ s' = s := by
  cases p with
  | ret a => cases h
  | op o k =>
    obtain ⟨⟨r, s₁⟩, hperf, hk⟩ := Option.map_eq_some_iff.mp h
    obtain ⟨rfl, rfl⟩ := Prod.mk.inj hk
    exact .inl ⟨o, k, r, rfl, rfl, hperf⟩
  | iter body b k =>
    obtain ⟨-, rfl⟩ := Prod.mk.inj (Option.some.inj h)
    exact .inr ⟨rfl, rfl⟩

/-! ### Before the lock is initialised -/

/-- The operations of a worker without a lock. -/
def NoLockOp : Op → Prop
  | .zoo (.zooWexists _) => False
  | _ => True

/-- What a main thread has still to do, as long as the lock has never been initialised: nothing with
the lock, or first of all `zkr_lock_init`. -/
inductive BeforeInit {α : Type} : Code α → Prop where
  | noLock {p : Code α} : Performs NoLockOp (KnownResults fun _ => True) p (fun _ => True) →
      BeforeInit p
  | init {path : CString} {acl : Option Acl} {k : Code α} :
      BeforeInit (.op (.store (.lockInit path acl)) fun _ => .op .pthreadMutexInit fun _ => k)
  | mutexInit {k : Code α} : BeforeInit (.op .pthreadMutexInit fun _ => k)

theorem closeEffects_noLock : CloseEffects NoLockOp (KnownResults fun _ => True) where
  load := trivial
  fault := trivial
  nanosleep := trivial
  completion _ := trivial
  clearId := trivial
  mutexLock := trivial
  mutexUnlock := trivial
  dequeue _ _ _ _ _ _ := trivial
  efreePath := trivial
  lockDestroy := trivial
  mutexDestroy := trivial
  clearIsOwner := trivial
  clearIsLocked := trivial

theorem dataEffects_noLock : DataEffects NoLockOp (KnownResults fun _ => True) where
  load := trivial
  dataExists _ _ := trivial
  dataGet _ _ _ := trivial
  dataCreate _ _ _ := trivial
  dataSet _ _ _ := trivial
  dataDelete _ _ := trivial

theorem gcEffects_noLock : GcEffects NoLockOp (KnownResults fun _ => True) where
  gcList := trivial
  gcExists _ _ := trivial
  gcDelete _ _ := trivial
  gcNames _ ha := ha.1

/-- A callback begins before the lock is initialised. -/
theorem beforeInit_callback (session : Sid) (cb : Callback) : BeforeInit (cb.code session) := by
  cases cb with
  | psOpen => exact .noLock (.ret trivial)
  | psRead g key =>
    have hdata : Performs NoLockOp (KnownResults fun _ => True) (psReadData g key) fun _ => True :=
      dataEffects_noLock.psReadData trivial g
    show BeforeInit (psRead session g key)
    unfold psRead
    split_ifs
    · exact .init
    · exact .noLock hdata
  | psWrite key val =>
    exact .noLock ((dataEffects_noLock.psWrite key val).bind fun _ _ => .ret trivial)
  | psDestroy key =>
    exact .noLock ((dataEffects_noLock.psDestroy key).bind fun _ _ => .ret trivial)
  | psGc g => exact .noLock ((gcEffects_noLock.psGc g).bind fun _ _ => .ret trivial)
  | psClose => exact .noLock (closeEffects_noLock.psClose.bind fun _ _ => .ret trivial)

/-- No watch is set before the lock is initialised. -/
theorem BeforeInit.next_ne {α : Type} {p : Code α} (h : BeforeInit p) (q : CString) :
    p.next ≠ some (.zoo (.zooWexists q)) := by
  intro hq
  cases h with
  | init => cases hq
  | mutexInit => cases hq
  | noLock h =>
    cases p with
    | op o k =>
      obtain rfl := Option.some.inj hq
      exact h.op_inv.1
    | ret a => cases hq
    | iter body b k => cases hq

/-- A step before the lock is initialised, other than the last one of `zkr_lock_init`. -/
theorem BeforeInit.advance {α : Type} {s s' : World srv W} {w : W} {sid : Sid} {th : Thread}
    {d : Decision srv} {p p' : Code α} (h : BeforeInit p)
    (hadv : s.advance w sid th d p = some (p', s')) (hne : p.next ≠ some .pthreadMutexInit) :
    BeforeInit p' := by
  cases h with
  | init =>
    obtain ⟨rfl, -⟩ := Prod.mk.inj (Option.some.inj hadv)
    exact .mutexInit
  | mutexInit => exact absurd rfl hne
  | noLock h =>
    cases p with
    | ret a => cases hadv
    | op o k =>
      obtain ⟨⟨r, s₁⟩, hperf, hk⟩ := Option.map_eq_some_iff.mp hadv
      obtain ⟨rfl, rfl⟩ := Prod.mk.inj hk
      refine .noLock (h.op_inv.2 r ?_)
      cases o with
      | zoo req => exact knownReply_of_perform hperf
      | _ => trivial
    | iter body b k =>
      obtain ⟨rfl, -⟩ := Prod.mk.inj (Option.some.inj hadv)
      exact .noLock h.iter_inv

/-- A worker whose lock has never been initialised. -/
structure Config.Unwatched (c : Config srv W) (w : W) : Prop where
  watches : c.world.watches w = []
  events : c.world.events w = 0
  watcher : c.watcher w = none
  main : ∀ cb p, c.main w = some (cb, p) → BeforeInit p

/-! ### One step -/

section Step

variable {sid : W → Sid} {c c' : Config srv W} {l : Label srv W} {g : WatchLog} {w v : W}

omit [DecidableEq W] in
theorem World.fire_unwatched {s : World srv W} (p : Option CString) (hw : s.watches w = [])
    (he : s.events w = 0) : (s.fire p).watches w = [] ∧ (s.fire p).events w = 0 := by
  cases p with
  | none => exact ⟨hw, he⟩
  | some p => exact ⟨by simp [fire, hw], by simp [fire, hw, he]⟩

omit [DecidableEq W] in
theorem World.events_fire_le (s : World srv W) (p : Option CString) (w : W) :
    s.events w ≤ (s.fire p).events w := by
  cases p with
  | none => exact le_rfl
  | some p =>
    simp only [fire]
    split_ifs <;> omega

omit [DecidableEq W] in
theorem World.others_unwatched {s : World srv W} {tree : srv.State} {views : W → List srv.State}
    {touched : Option CString} (hw : s.watches w = []) (he : s.events w = 0) :
    (s.others tree views touched).watches w = [] ∧ (s.others tree views touched).events w = 0 :=
  fire_unwatched (s := { s with tree := tree, views := views }) touched hw he

omit [DecidableEq W] in
theorem World.events_others_le (s : World srv W) (tree : srv.State) (views : W → List srv.State)
    (touched : Option CString) (w : W) :
    s.events w ≤ (s.others tree views touched).events w :=
  events_fire_le { s with tree := tree, views := views } touched w

/-- Notifications are not lost. -/
theorem World.events_advance_le {α : Type} {s s' : World srv W} {session : Sid} {th : Thread}
    {d : Decision srv} {p p' : Code α} (h : s.advance v session th d p = some (p', s')) (w : W) :
    s.events w ≤ s'.events w := by
  rcases World.advance_cases h with ⟨o, k, r, -, -, hperf⟩ | ⟨-, rfl⟩
  · rcases World.perform_watches hperf with ⟨q, -, he⟩ | ⟨q, -, -, he⟩
    · rw [he]
      exact s.events_fire_le q w
    · rw [he]
  · exact le_rfl

/-- A thread sets no watch for another worker, nor one before the lock is initialised. -/
theorem World.advance_unwatched {α : Type} {s s' : World srv W} {session : Sid} {th : Thread}
    {d : Decision srv} {p p' : Code α} (h : s.advance v session th d p = some (p', s'))
    (hp : v = w → BeforeInit p) (hw : s.watches w = []) (he : s.events w = 0) :
    s'.watches w = [] ∧ s'.events w = 0 := by
  rcases World.advance_cases h with ⟨o, k, r, rfl, -, hperf⟩ | ⟨-, rfl⟩
  · rcases World.perform_watches hperf with ⟨q, hw', he'⟩ | ⟨q, rfl, hw', he'⟩
    · rw [hw', he']
      exact World.fire_unwatched q hw he
    · have hne : w ≠ v := fun hv => (hp hv.symm).next_ne q rfl
      rw [hw', he', Function.update_of_ne hne]
      exact ⟨hw, he⟩
  · exact ⟨hw, he⟩

/-- The operation a step performs is the next one of its thread. -/
theorem Config.performsOf_main {d : Decision srv} {cb : Callback}
    {p : Code (Outcome (Option Bytes))} (h : c.main v = some (cb, p)) :
    c.performsOf w (.main v d) = if v = w then p.next else none := by
  simp [performsOf, performs, h]

theorem Config.performsOf_watcher {d : Decision srv} {p : Code Unit} (h : c.watcher v = some p) :
    c.performsOf w (.watcher v d) = if v = w then p.next else none := by
  simp [performsOf, performs, h]

/-- Only the end of `zkr_lock_init` initialises a lock. -/
theorem WatchLog.initialised_of_after (h : (g.after w c c' l).initialised = false) :
    g.initialised = false ∧ c.performsOf w l ≠ some .pthreadMutexInit := by
  have hop : ∀ g' : WatchLog, (match c.performsOf w l with
      | some o => (g.fire c.world c'.world w).perform (c'.world.watches w) o
      | none => g.fire c.world c'.world w) = g' → g'.initialised = false →
      g.initialised = false ∧ c.performsOf w l ≠ some .pthreadMutexInit := by
    rintro g' rfl hg'
    cases ho : c.performsOf w l with
    | none =>
      rw [ho] at hg'
      exact ⟨hg', by simp⟩
    | some o =>
      rw [ho] at hg'
      cases o with
      | pthreadMutexInit => cases hg'
      | store a => cases a <;> exact ⟨hg', by simp⟩
      | _ => exact ⟨hg', by simp⟩
  cases l with
  | notify u =>
    simp only [WatchLog.after] at h
    split at h <;> exact ⟨h, by simp [Config.performsOf]⟩
  | sessionEvent u =>
    simp only [WatchLog.after] at h
    split at h <;> exact ⟨h, by simp [Config.performsOf]⟩
  | _ => exact hop _ rfl h

/-- The end of a request initialises no lock. -/
theorem WatchLog.initialised_requestEnd (g : W → WatchLog) (v w : W) {watches : List CString} :
    (Function.update g v ((g v).requestEnd watches) w).initialised = (g w).initialised := by
  by_cases hv : w = v
  · subst hv
    rw [Function.update_self]
    unfold requestEnd
    split_ifs
    · rfl
    · rfl
  · rw [Function.update_of_ne hv]

theorem beforeInit_update {main : W → Option (Callback × Code (Outcome (Option Bytes)))} {u : W}
    {x : Option (Callback × Code (Outcome (Option Bytes)))}
    (h : ∀ cb p, main w = some (cb, p) → BeforeInit p)
    (hx : w = u → ∀ cb p, x = some (cb, p) → BeforeInit p) (cb : Callback)
    (p : Code (Outcome (Option Bytes))) (hp : Function.update main u x w = some (cb, p)) :
    BeforeInit p := by
  by_cases huw : w = u
  · subst huw
    rw [Function.update_self] at hp
    exact hx rfl cb p hp
  · rw [Function.update_of_ne huw] at hp
    exact h cb p hp

/-- **Before the lock is initialised** nothing is watched, and nobody is notified. -/
theorem Config.Unwatched.step (h : c.Unwatched w)
    (hne : c.performsOf w l ≠ some .pthreadMutexInit) (hstep : c.step sid l = some c') :
    c'.Unwatched w := by
  obtain ⟨hwatches, hevents, hwatcher, hmain⟩ := h
  cases l with
  | start u cb =>
    simp only [Config.step] at hstep
    cases hu : c.main u with
    | some x => simp [hu] at hstep
    | none =>
      rw [hu, Option.some.injEq] at hstep
      subst hstep
      refine ⟨hwatches, hevents, hwatcher, beforeInit_update hmain fun _ cb' p hp => ?_⟩
      rw [← (Prod.mk.inj (Option.some.inj hp)).2]
      exact beforeInit_callback _ _
  | main u d =>
    simp only [Config.step] at hstep
    cases hu : c.main u with
    | none => simp [hu] at hstep
    | some x =>
      obtain ⟨cb, p⟩ := x
      rw [Config.performsOf_main hu] at hne
      rw [hu] at hstep
      obtain ⟨⟨p', s'⟩, hadv, rfl⟩ := Option.map_eq_some_iff.mp hstep
      have hp : u = w → BeforeInit p := fun huw => hmain cb p (by rw [← huw, hu])
      obtain ⟨hw', he'⟩ := World.advance_unwatched hadv hp hwatches hevents
      refine ⟨hw', he', hwatcher, beforeInit_update hmain fun huw cb' q hq => ?_⟩
      rw [if_pos huw.symm] at hne
      rw [← (Prod.mk.inj (Option.some.inj hq)).2]
      exact (hp huw.symm).advance hadv hne
  | finish u =>
    simp only [Config.step] at hstep
    split at hstep
    · rw [Option.some.injEq] at hstep
      subst hstep
      exact ⟨hwatches, hevents, hwatcher, beforeInit_update hmain fun _ _ _ hp => by cases hp⟩
    · cases hstep
  | sessionEvent u =>
    simp only [Config.step] at hstep
    split at hstep
    · cases hstep
    · next hu =>
      rw [Option.some.injEq] at hstep
      subst hstep
      have huw : w ≠ u := fun huw => hu (huw ▸ hwatches)
      exact ⟨hwatches, by simp [Function.update_of_ne huw, hevents], hwatcher, hmain⟩
  | notify u =>
    simp only [Config.step] at hstep
    split at hstep
    · split_ifs at hstep with hu
      rw [Option.some.injEq] at hstep
      subst hstep
      have huw : w ≠ u := fun huw => hu (huw ▸ hevents)
      exact ⟨hwatches, by simp [Function.update_of_ne huw, hevents],
        by simp [Function.update_of_ne huw, hwatcher], hmain⟩
    · cases hstep
  | watcher u d =>
    simp only [Config.step] at hstep
    cases hu : c.watcher u with
    | none => simp [hu] at hstep
    | some p =>
      have huw : w ≠ u := fun huw => by simp [huw, hu] at hwatcher
      rw [hu] at hstep
      obtain ⟨⟨p', s'⟩, hadv, rfl⟩ := Option.map_eq_some_iff.mp hstep
      obtain ⟨hw', he'⟩ := World.advance_unwatched hadv (fun heq => absurd heq.symm huw)
        hwatches hevents
      exact ⟨hw', he', by simp [Function.update_of_ne huw, hwatcher], hmain⟩
  | watcherDone u =>
    simp only [Config.step] at hstep
    split at hstep
    · next hu =>
      have huw : w ≠ u := fun huw => by simp [huw, hu] at hwatcher
      rw [Option.some.injEq] at hstep
      subst hstep
      exact ⟨hwatches, hevents, by simp [Function.update_of_ne huw, hwatcher], hmain⟩
    · cases hstep

/-- No watch and no notification has outlived an end of the lock. -/
structure WatchLog.Alive (g : WatchLog) (s : World srv W) (w : W) : Prop where
  outlived : g.outlived = []
  events : g.events = List.replicate (s.events w) false

/-- The worker has set no watch that has not fired, and no notification is to come. -/
def World.Silent (s : World srv W) (w : W) : Prop := s.watches w = [] ∧ s.events w = 0

/-- No lock is destroyed, and none loses its path, that is still watched for or to be notified. -/
def EndsSilent (c : Config srv W) (g : W → WatchLog) : Happening srv W → Prop
  | .step l => ∀ w o, c.performsOf w l = some o → o.EndsLock → c.world.Silent w
  | .requestEnd w => (g w).path = true → c.world.Silent w

omit [DecidableEq W] in
theorem WatchLog.Alive.fire {s s' : World srv W} (h : g.Alive s w)
    (hle : s.events w ≤ s'.events w) : (g.fire s s' w).Alive s' w where
  outlived := by simp [WatchLog.fire, h.outlived]
  events := by
    simp only [WatchLog.fire, h.events, h.outlived, List.any_nil, List.replicate_append_replicate]
    rw [Nat.add_sub_cancel' hle]

omit [DecidableEq W] in
/-- The lock ends, and nothing is left of its watches. -/
theorem WatchLog.Alive.bury {s : World srv W} (h : g.Alive s w) (hs : s.Silent w) :
    (g.bury (s.watches w)).Alive s w :=
  ⟨hs.1, by simp [WatchLog.bury, h.events, hs.2]⟩

omit [DecidableEq W] in
/-- An operation that does not end the lock, or one that finds nothing. -/
theorem WatchLog.Alive.perform {s : World srv W} {o : Op} (h : g.Alive s w)
    (ho : o.EndsLock → s.Silent w) : (g.perform (s.watches w) o).Alive s w := by
  cases o with
  | store a =>
    cases a with
    | lockDestroy => exact h.bury (ho trivial)
    | lockInit path acl => exact ⟨h.outlived, h.events⟩
    | _ => exact h
  | efreePath =>
    obtain ⟨houtlived, hevents⟩ := h.bury (ho trivial)
    exact ⟨houtlived, hevents⟩
  | pthreadMutexInit => exact ⟨h.outlived, h.events⟩
  | _ => exact h

omit [DecidableEq W] in
/-- The request ends, and nothing is left of the watches, or no path. -/
theorem WatchLog.Alive.requestEnd {s : World srv W} (h : g.Alive s w)
    (hs : g.path = true → s.Silent w) : (g.requestEnd (s.watches w)).Alive s w := by
  unfold WatchLog.requestEnd
  split_ifs with hpath
  · obtain ⟨houtlived, hevents⟩ := h.bury (hs hpath)
    exact ⟨houtlived, hevents⟩
  · exact h

/-- An operation that ends the lock changes neither watches nor notifications. -/
theorem World.advance_endsLock {α : Type} {s s' : World srv W} {session : Sid} {th : Thread}
    {d : Decision srv} {p p' : Code α} {o : Op}
    (h : s.advance v session th d p = some (p', s')) (hp : p.next = some o) (ho : o.EndsLock) :
    s'.watches = s.watches ∧ s'.events = s.events := by
  rcases World.advance_cases h with ⟨o', k, r, rfl, -, hperf⟩ | ⟨hnone, -⟩
  · obtain rfl := Option.some.inj hp
    cases o' with
    | store a =>
      obtain rfl := congrArg Prod.snd (Option.some.inj hperf)
      exact ⟨rfl, rfl⟩
    | efreePath =>
      obtain rfl := congrArg Prod.snd (Option.some.inj hperf)
      exact ⟨rfl, rfl⟩
    | _ => exact ho.elim
  · rw [hnone] at hp
    cases hp

/-- A thread goes on. -/
theorem WatchLog.Alive.advance {α : Type} {s s' : World srv W} {session : Sid} {th : Thread}
    {d : Decision srv} {p p' : Code α} (h : g.Alive s w)
    (hadv : s.advance v session th d p = some (p', s'))
    (hok : ∀ o, (if v = w then p.next else none) = some o → o.EndsLock → s.Silent w) :
    WatchLog.Alive (match if v = w then p.next else none with
      | some o => (g.fire s s' w).perform (s'.watches w) o
      | none => g.fire s s' w) s' w := by
  have hfire := h.fire (World.events_advance_le hadv w)
  cases ho : (if v = w then p.next else none) with
  | none => exact hfire
  | some o =>
    refine hfire.perform fun hends => ?_
    have hnext : p.next = some o := by
      split_ifs at ho
      exact ho
    obtain ⟨hw, he⟩ := World.advance_endsLock hadv hnext hends
    unfold World.Silent
    rw [hw, he]
    exact hok o ho hends

/-- **One step** that ends no lock that is watched for. -/
theorem WatchLog.Alive.step (h : g.Alive c.world w)
    (hok : ∀ o, c.performsOf w l = some o → o.EndsLock → c.world.Silent w)
    (hstep : c.step sid l = some c') : (g.after w c c' l).Alive c'.world w := by
  have hsame : c'.world = c.world → (g.fire c.world c'.world w).Alive c'.world w := fun heq =>
    h.fire (by rw [heq])
  cases l with
  | start u cb =>
    simp only [Config.step] at hstep
    split at hstep
    · obtain rfl := Option.some.inj hstep
      exact hsame rfl
    · cases hstep
  | main u d =>
    simp only [Config.step] at hstep
    cases hu : c.main u with
    | none => simp [hu] at hstep
    | some x =>
      obtain ⟨cb, p⟩ := x
      rw [hu] at hstep
      obtain ⟨⟨p', s'⟩, hadv, rfl⟩ := Option.map_eq_some_iff.mp hstep
      rw [Config.performsOf_main hu] at hok
      simp only [WatchLog.after, Config.performsOf_main hu]
      exact h.advance hadv hok
  | finish u =>
    simp only [Config.step] at hstep
    split at hstep
    · obtain rfl := Option.some.inj hstep
      exact hsame rfl
    · cases hstep
  | sessionEvent u =>
    simp only [Config.step] at hstep
    split at hstep
    · cases hstep
    · obtain rfl := Option.some.inj hstep
      simp only [WatchLog.after]
      split_ifs with huw
      · subst huw
        exact ⟨h.outlived, by simp [h.events, h.outlived, List.replicate_succ']⟩
      · exact ⟨h.outlived, by simp [h.events, Function.update_of_ne (Ne.symm huw)]⟩
  | notify u =>
    simp only [Config.step] at hstep
    split at hstep
    · split_ifs at hstep
      obtain rfl := Option.some.inj hstep
      simp only [WatchLog.after]
      split_ifs with huw
      · subst huw
        exact ⟨h.outlived, by simp [h.events]⟩
      · exact ⟨h.outlived, by simp [h.events, Function.update_of_ne (Ne.symm huw)]⟩
    · cases hstep
  | watcher u d =>
    simp only [Config.step] at hstep
    cases hu : c.watcher u with
    | none => simp [hu] at hstep
    | some p =>
      rw [hu] at hstep
      obtain ⟨⟨p', s'⟩, hadv, rfl⟩ := Option.map_eq_some_iff.mp hstep
      rw [Config.performsOf_watcher hu] at hok
      simp only [WatchLog.after, Config.performsOf_watcher hu]
      exact h.advance hadv hok
  | watcherDone u =>
    simp only [Config.step] at hstep
    split at hstep
    · obtain rfl := Option.some.inj hstep
      exact hsame rfl
    · cases hstep

/-- The library can call `lock_watcher_fn` next, at once or after a change of the connection, for a
lock that has ended. -/
def Config.CallsDead (sid : W → Sid) (c : Config srv W) (g : WatchLog) (w : W) : Prop :=
  g.events.head? = some true ∨ ∃ c', c.step sid (.sessionEvent w) = some c' ∧
    (g.after w c c' (.sessionEvent w)).events.head? = some true

/-- A lock ends that is watched for, or to be notified. -/
theorem callsDead_of_bury {g' : WatchLog} (houtlived : g'.outlived = c.world.watches w)
    (hevents : g'.events = g.events.map fun _ => true)
    (hlive : c.world.watches w ≠ [] ∨ g.events ≠ []) : c.CallsDead sid g' w := by
  unfold Config.CallsDead
  rw [hevents]
  cases hg : g.events with
  | cons b bs => exact .inl rfl
  | nil =>
    have hw : c.world.watches w ≠ [] := hlive.resolve_right fun h => h hg
    obtain ⟨c', hc'⟩ : ∃ c', c.step sid (.sessionEvent w) = some c' := by
      simp [Config.step, hw]
    exact .inr ⟨c', hc', by simp [WatchLog.after, hevents, hg, houtlived, hw]⟩

/-- A `zkr_lock_destroy`, or an `efree` of the path, that finds a watch or a notification. -/
theorem dead_of_endsLock {o : Op} (ho : c.performsOf w l = some o) (hends : o.EndsLock)
    (hlive : c.world.watches w ≠ [] ∨ g.events ≠ []) (hstep : c.step sid l = some c') :
    c'.CallsDead sid (g.after w c c' l) w := by
  have hsame : c'.world.watches = c.world.watches ∧ c'.world.events = c.world.events := by
    cases l with
    | main u d =>
      simp only [Config.step] at hstep
      cases hu : c.main u with
      | none => simp [hu] at hstep
      | some x =>
        rw [hu] at hstep
        obtain ⟨y, hadv, rfl⟩ := Option.map_eq_some_iff.mp hstep
        rw [Config.performsOf_main hu] at ho
        split_ifs at ho
        exact World.advance_endsLock hadv ho hends
    | watcher u d =>
      simp only [Config.step] at hstep
      cases hu : c.watcher u with
      | none => simp [hu] at hstep
      | some p =>
        rw [hu] at hstep
        obtain ⟨y, hadv, rfl⟩ := Option.map_eq_some_iff.mp hstep
        rw [Config.performsOf_watcher hu] at ho
        split_ifs at ho
        exact World.advance_endsLock hadv ho hends
    | _ => cases ho
  have hafter : (g.after w c c' l).outlived = c'.world.watches w ∧
      (g.after w c c' l).events = g.events.map fun _ => true := by
    have hbury : ((g.fire c.world c'.world w).perform (c'.world.watches w) o).outlived =
          c'.world.watches w ∧
        ((g.fire c.world c'.world w).perform (c'.world.watches w) o).events =
          g.events.map fun _ => true := by
      cases o with
      | efreePath => simp [WatchLog.perform, WatchLog.bury, WatchLog.fire, hsame]
      | store a =>
        cases a with
        | lockDestroy => simp [WatchLog.perform, WatchLog.bury, WatchLog.fire, hsame]
        | _ => exact hends.elim
      | _ => exact hends.elim
    cases l with
    | main u d => simpa only [WatchLog.after, ho] using hbury
    | watcher u d => simpa only [WatchLog.after, ho] using hbury
    | _ => cases ho
  refine callsDead_of_bury hafter.1 hafter.2 ?_
  rwa [hsame.1]

/-- The end of a request that finds a watch or a notification, and a path. -/
theorem dead_of_requestEnd (hpath : g.path = true)
    (hlive : c.world.watches w ≠ [] ∨ g.events ≠ []) :
    c.CallsDead sid (g.requestEnd (c.world.watches w)) w :=
  callsDead_of_bury (by simp [WatchLog.requestEnd, hpath, WatchLog.bury])
    (by simp [WatchLog.requestEnd, hpath, WatchLog.bury]) hlive

end Step

/-! ### Whole runs -/

section Runs

variable {sid : W → Sid} {ok : Config srv W → (W → WatchLog) → Happening srv W → Prop}
  {c₀ c c' : Config srv W} {g : W → WatchLog} {w : W}

/-- Nobody runs, and nothing is watched. -/
structure Config.IsQuiet (c : Config srv W) : Prop where
  main : ∀ w, c.main w = none
  watcher : ∀ w, c.watcher w = none
  watches : ∀ w, c.world.watches w = []
  events : ∀ w, c.world.events w = 0

/-- A worker is notified only once its lock has been initialised. -/
theorem unwatched_of_followed (h₀ : c₀.IsQuiet) (h : Followed sid ok c₀ c g)
    (hg : (g w).initialised = false) : c.Unwatched w := by
  induction h with
  | refl => exact ⟨h₀.watches w, h₀.events w, h₀.watcher w, by simp [h₀.main]⟩
  | step _ _ hstep ih =>
    obtain ⟨hold, hne⟩ := WatchLog.initialised_of_after hg
    exact (ih hold).step hne hstep
  | @requestEnd _ _ v _ _ _ ih => exact ih ((WatchLog.initialised_requestEnd _ v w).symm.trans hg)
  | others tree views touched _ ih =>
    obtain ⟨hwatches, hevents, hwatcher, hmain⟩ := ih hg
    obtain ⟨hw, he⟩ := World.others_unwatched hwatches hevents
    exact ⟨hw, he, hwatcher, hmain⟩

/-- Nothing outlives a lock that only ends when it is neither watched for nor to be notified. -/
theorem alive_of_followed (h₀ : c₀.IsQuiet) (h : Followed sid EndsSilent c₀ c g) (w : W) :
    (g w).Alive c.world w := by
  induction h with
  | refl => exact ⟨rfl, by simp [h₀.events]⟩
  | step _ hok hstep ih => exact ih.step (hok w) hstep
  | @requestEnd _ _ v _ hok _ ih =>
    by_cases hv : w = v
    · subst hv
      rw [Function.update_self]
      exact ih.requestEnd hok
    · rwa [Function.update_of_ne hv]
  | others tree views touched _ ih => exact ih.fire (World.events_others_le _ _ _ _ _)

/-- **No watcher runs on a dead lock**, in every run in which no lock that is watched for or to be
notified is destroyed or loses its path. -/
theorem watcher_alive (h₀ : c₀.IsQuiet) (h : Followed sid EndsSilent c₀ c g)
    (hnotify : c.step sid (.notify w) = some c') :
    (g w).initialised = true ∧ (g w).events.head? = some false := by
  have hevents : c.world.events w ≠ 0 := by
    simp only [Config.step] at hnotify
    split at hnotify
    · split_ifs at hnotify with he
      exact he
    · cases hnotify
  constructor
  · cases hi : (g w).initialised with
    | true => rfl
    | false => exact absurd (unwatched_of_followed h₀ h hi).events hevents
  · obtain ⟨n, hn⟩ := Nat.exists_eq_succ_of_ne_zero hevents
    rw [(alive_of_followed h₀ h w).events, hn]
    rfl

end Runs

/-! ### Two runs -/

/-- The log of the worker `w` after a list of steps. -/
def WatchLog.run (sid : W → Sid) (w : W) (g : WatchLog) (c : Config srv W) :
    List (Label srv W) → WatchLog
  | [] => g
  | l :: ls =>
    match c.step sid l with
    | some c' => (g.after w c c' l).run sid w c' ls
    | none => g.run sid w c ls

theorem Followed.run {sid : W → Sid} {ok : Config srv W → (W → WatchLog) → Happening srv W → Prop}
    {check : Config srv W → Label srv W → Bool}
    (hcheck : ∀ c g l, check c l = true → ok c g (.step l)) {c₀ c : Config srv W}
    {g : W → WatchLog} (h : Followed sid ok c₀ c g) {ls : List (Label srv W)}
    (hls : c.checks sid check ls = true) :
    ∃ g', Followed sid ok c₀ (c.run sid ls) g' ∧ ∀ w, g' w = (g w).run sid w c ls := by
  induction ls generalizing c g with
  | nil => exact ⟨g, h, fun _ => rfl⟩
  | cons l ls ih =>
    obtain ⟨hl, hls⟩ := Bool.and_eq_true_iff.mp hls
    simp only [Config.run, List.foldl_cons, WatchLog.run] at ih ⊢
    cases hstep : c.step sid l with
    | none =>
      rw [show c.after sid l = c by rw [Config.after, hstep]; rfl] at hls ⊢
      exact ih h hls
    | some c' =>
      rw [Config.after_of_step hstep] at hls ⊢
      exact ih (h.step (hcheck c g l hl) hstep) hls

/-- The first worker closes its session while the second one waits behind it. The second one has
the lock before it is notified, and closes its session too. -/
def outlivingSteps : List (Label treeServer Bool) :=
  callbackSteps false (.psRead {} lockKey) ++
    [.start true (.psRead {} lockKey)] ++ mainSteps true 30 ++
    callbackSteps false .psClose ++ mainSteps true 60 ++ [.finish true] ++
    callbackSteps true .psClose

/-- The first worker closes its session while the second one waits behind it, and is to be notified
before it has the lock. -/
def notifyingSteps : List (Label treeServer Bool) :=
  callbackSteps false (.psRead {} lockKey) ++
    [.start true (.psRead {} lockKey)] ++ mainSteps true 30 ++ callbackSteps false .psClose

instance {srv : Server} {W : Type} (s : World srv W) (w : W) : Decidable (s.Silent w) :=
  inferInstanceAs (Decidable (_ ∧ _))

/-- The step ends no lock that is still watched for, or to be notified. -/
def checkSilent (c : Config treeServer Bool) (l : Label treeServer Bool) : Bool :=
  [false, true].all fun w => (c.performsOf w l).all fun o => ¬ o.EndsLock ∨ c.world.Silent w

theorem endsSilent_of_check (c : Config treeServer Bool) (g : Bool → WatchLog)
    (l : Label treeServer Bool) (h : checkSilent c l = true) : EndsSilent c g (.step l) := by
  intro w o ho hends
  have hall : ∀ v : Bool, v ∈ [false, true] := by decide
  have hv := List.all_eq_true.mp h w (hall w)
  rw [ho] at hv
  exact (of_decide_eq_true hv).resolve_left fun hne => hne hends

theorem twoWorkers_isQuiet : twoWorkers.IsQuiet :=
  ⟨fun _ => rfl, fun _ => rfl, fun _ => rfl, fun _ => rfl⟩

/-- The request of the first worker ends, and the second one is notified of a lock that is in
use. -/
theorem watcher_alive_waiting :
    ∃ c g c', Followed twoSids EndsSilent twoWorkers c g ∧
      c.step twoSids (.notify true) = some c' ∧ (g true).initialised = true ∧
      (g true).events.head? = some false := by
  obtain ⟨c, g, hg, hidle, hsilent, c', hc'⟩ : ∃ c g, Followed twoSids EndsSilent twoWorkers c g ∧
      c.main false = none ∧ c.world.Silent false ∧
        ∃ c', c.step twoSids (.notify true) = some c' := by
    have hchecks : twoWorkers.checks twoSids checkSilent notifyingSteps = true := by
      decide +kernel
    obtain ⟨g, hg, -⟩ := Followed.run endsSilent_of_check .refl hchecks
    exact ⟨_, g, hg, Option.isNone_iff_eq_none.mp (by decide +kernel),
      ⟨by decide +kernel, by decide +kernel⟩, Option.isSome_iff_exists.mp (by decide +kernel)⟩
  have hends := hg.requestEnd (fun _ => hsilent) hidle
  exact ⟨c, _, c', hends, hc', watcher_alive twoWorkers_isQuiet hends hc'⟩

/-- The library calls `lock_watcher_fn` for a lock that has been destroyed. -/
theorem watcher_dead :
    ¬ ∀ (c c' : Config treeServer Bool) (g : Bool → WatchLog) (w : Bool),
      Followed twoSids (fun _ _ _ => True) twoWorkers c g →
        c.step twoSids (.notify w) = some c' →
        (g w).initialised = true ∧ (g w).events.head? = some false := by
  intro h
  obtain ⟨g, hg, hlog⟩ : ∃ g, Followed twoSids (fun _ _ _ => True) twoWorkers
      (twoWorkers.run twoSids outlivingSteps) g ∧
      ∀ w, g w = WatchLog.run twoSids w {} twoWorkers outlivingSteps := by
    have hchecks : twoWorkers.checks twoSids (fun _ _ => true) outlivingSteps = true := by
      decide +kernel
    exact Followed.refl.run (fun _ _ _ _ => trivial) hchecks
  obtain ⟨c', hc'⟩ : ∃ c', (twoWorkers.run twoSids outlivingSteps).step twoSids (.notify true) =
      some c' := Option.isSome_iff_exists.mp (by decide +kernel)
  have hevents : (g true).events.head? = some true := by
    rw [hlog]
    decide +kernel
  have hfalse := (h _ _ g true hg hc').2
  rw [hevents] at hfalse
  cases hfalse

end PhpZookeeper
