import PhpZookeeper.Theory.RelyGuarantee
import PhpZookeeper.System.Workers

/-!
# Proof outlines of the system

An *outline* gives each thread of each worker a contract, and each worker something that is true
while its main thread is between callbacks. When each operation of a thread respects what the
other threads rely on (`Outline.Sound`), every thread is safe in every state that a run reaches
(`Outline.holds_of_reaches`).
-/

namespace PhpZookeeper

open Theory Prog

variable {srv : Server} {W : Type}

/-- Two worlds with the same nodes, seen in the same way, and the same records. -/
structure World.Same (s s' : World srv W) : Prop where
  tree : s'.tree = s.tree
  views : s'.views = s.views
  memory : s'.memory = s.memory

theorem World.Same.nodes {s s' : World srv W} (h : World.Same s s') : s'.nodes = s.nodes :=
  congrArg srv.nodes h.tree

variable [DecidableEq W]

/-- What a thread's step leaves of its safety: it has performed its next operation, as its contract
promises, or has entered a round of a loop. -/
theorem Theory.Safe.advance {α : Type} {C : Contract Op.Res (World srv W)} {p p' : Code α}
    {Q : α → World srv W → Prop} {s s' : World srv W} {w : W} {sid : Sid} {th : Thread}
    {d : Decision srv} (h : Safe C p Q s) (hQ : ∀ a, C.Stable none (Q a))
    (hadv : s.advance w sid th d p = some (p', s')) :
    (p.next = none ∧ s' = s ∧ Safe C p' Q s') ∨
      ∃ o r, p.next = some o ∧ s.perform w sid th d o = some (r, s') ∧
        (C.sem o s r s' → C.guar o s r s' ∧ Safe C p' Q s') := by
  cases p with
  | ret a => cases hadv
  | op o k =>
    obtain ⟨⟨r, s₁⟩, hperf, hk⟩ := Option.map_eq_some_iff.mp hadv
    obtain ⟨rfl, rfl⟩ := Prod.mk.inj hk
    exact .inr ⟨o, r, rfl, hperf, fun hsem => h.op hQ hsem⟩
  | iter body b k =>
    obtain ⟨rfl, rfl⟩ := Prod.mk.inj (Option.some.inj hadv)
    exact .inl ⟨rfl, rfl, h.iter hQ⟩

/-- The step in which a main thread performs an operation. -/
theorem Config.step_main {sid : W → Sid} {c : Config srv W} {w : W} {d : Decision srv}
    {cb : Callback} {p : Code (Outcome (Option Bytes))} {o : Op} {r : o.Res} {s' : World srv W}
    (hmain : c.main w = some (cb, p)) (hnext : p.next = some o)
    (hperf : c.world.perform w (sid w) .main d o = some (r, s')) :
    ∃ c', c.step sid (.main w d) = some c' ∧ c'.world = s' := by
  cases p with
  | op o' k =>
    obtain rfl := Option.some.inj hnext
    exact ⟨_, by simp only [Config.step, hmain, World.advance, hperf]; rfl, rfl⟩
  | ret a => cases hnext
  | iter body b k => cases hnext

/-- The step in which a thread that runs `lock_watcher_fn` performs an operation. -/
theorem Config.step_watcher {sid : W → Sid} {c : Config srv W} {w : W} {d : Decision srv}
    {p : Code Unit} {o : Op} {r : o.Res} {s' : World srv W} (hwatcher : c.watcher w = some p)
    (hnext : p.next = some o)
    (hperf : c.world.perform w (sid w) .watcher d o = some (r, s')) :
    ∃ c', c.step sid (.watcher w d) = some c' ∧ c'.world = s' := by
  cases p with
  | op o' k =>
    obtain rfl := Option.some.inj hnext
    exact ⟨_, by simp only [Config.step, hwatcher, World.advance, hperf]; rfl, rfl⟩
  | ret a => cases hnext
  | iter body b k => cases hnext

/-- A contract for each thread, and what is true of a worker between callbacks. -/
structure Outline (srv : Server) (W : Type) where
  /-- What is true of the world whoever acts. -/
  inv : World srv W → Prop
  /-- What is true while no callback of the worker runs. -/
  idle : W → World srv W → Prop
  main : W → Callback → Contract Op.Res (World srv W)
  /-- How a callback ends. -/
  post : W → Callback → Outcome (Option Bytes) → World srv W → Prop
  watcher : W → Contract Op.Res (World srv W)

namespace Outline

variable (O : Outline srv W)

/-- The main thread of a worker keeps its contract, or is between callbacks. -/
def MainOk (c : Config srv W) (w : W) : Prop :=
  match c.main w with
  | none => O.idle w c.world
  | some (cb, p) => Safe (O.main w cb) p (O.post w cb) c.world

/-- The other thread of a worker keeps its contract. -/
def WatcherOk (c : Config srv W) (w : W) : Prop :=
  ∀ p, c.watcher w = some p → Safe (O.watcher w) p (fun _ _ => True) c.world

/-- Every thread keeps its contract. -/
structure Holds (c : Config srv W) : Prop where
  inv : O.inv c.world
  main : ∀ w, O.MainOk c w
  watcher : ∀ w, O.WatcherOk c w

/-- The main thread of the worker `v` can rely on the step from the world of `c` to `s'`. -/
def MainRelies (c : Config srv W) (s' : World srv W) (v : W) : Prop :=
  match c.main v with
  | none => O.idle v c.world → O.idle v s'
  | some (cb, p) => (O.main v cb).rely p.next c.world s'

/-- The other thread of the worker `v` can rely on the step from the world of `c` to `s'`. -/
def WatcherRelies (c : Config srv W) (s' : World srv W) (v : W) : Prop :=
  ∀ p, c.watcher v = some p → (O.watcher v).rely p.next c.world s'

/-- An outline that the steps which are `ok` respect. -/
structure Sound (sid : W → Sid) (ok : Config srv W → Label srv W → Prop) : Prop where
  invSame : ∀ {s s'}, World.Same s s' → O.inv s → O.inv s'
  idleSame : ∀ {s s' w}, World.Same s s' → O.idle w s → O.idle w s'
  mainSame : ∀ {s s' w cb o}, World.Same s s' → (O.main w cb).rely o s s'
  watcherSame : ∀ {s s' w o}, World.Same s s' → (O.watcher w).rely o s s'
  postStable : ∀ w cb a, (O.main w cb).Stable none (O.post w cb a)
  start : ∀ {c w cb}, O.Holds c → ok c (.start w cb) → O.idle w c.world →
    Safe (O.main w cb) (cb.code (sid w)) (O.post w cb) c.world
  finish : ∀ {c w cb a}, O.Holds c → ok c (.finish w) → c.main w = some (cb, .ret a) →
    O.post w cb a c.world → O.idle w c.world
  notify : ∀ {c w}, O.Holds c → ok c (.notify w) → c.watcher w = none →
    Safe (O.watcher w) (lockWatcherFn (sid w)) (fun _ _ => True) c.world
  mainOp : ∀ {c w d cb p o r s'}, O.Holds c → ok c (.main w d) → c.main w = some (cb, p) →
    p.next = some o → c.world.perform w (sid w) .main d o = some (r, s') →
    (O.main w cb).sem o c.world r s' ∧ ((O.main w cb).guar o c.world r s' →
      O.inv s' ∧ (∀ v, v ≠ w → O.MainRelies c s' v) ∧ ∀ v, O.WatcherRelies c s' v)
  watcherOp : ∀ {c w d p o r s'}, O.Holds c → ok c (.watcher w d) → c.watcher w = some p →
    p.next = some o → c.world.perform w (sid w) .watcher d o = some (r, s') →
    (O.watcher w).sem o c.world r s' ∧ ((O.watcher w).guar o c.world r s' →
      O.inv s' ∧ (∀ v, O.MainRelies c s' v) ∧ ∀ v, v ≠ w → O.WatcherRelies c s' v)

variable {O} {sid : W → Sid} {ok : Config srv W → Label srv W → Prop} {c c' : Config srv W}

omit [DecidableEq W] in
/-- A main thread keeps its contract when it may rely on a step. -/
theorem MainOk.rely {v : W} (h : O.MainOk c v) (hr : O.MainRelies c c'.world v)
    (hm : c'.main v = c.main v) : O.MainOk c' v := by
  unfold MainOk MainRelies at *
  rw [hm]
  cases hc : c.main v with
  | none =>
    simp only [hc] at h hr
    exact hr h
  | some x =>
    simp only [hc] at h hr
    exact h.rely hr

omit [DecidableEq W] in
theorem WatcherOk.rely {v : W} (h : O.WatcherOk c v) (hr : O.WatcherRelies c c'.world v)
    (hm : c'.watcher v = c.watcher v) : O.WatcherOk c' v := by
  intro p hp
  rw [hm] at hp
  exact (h p hp).rely (hr p hp)

namespace Sound

theorem mainRelies_same (hO : O.Sound sid ok) {s' : World srv W} (h : World.Same c.world s')
    (v : W) : O.MainRelies c s' v := by
  unfold MainRelies
  cases c.main v with
  | none => exact hO.idleSame h
  | some x => exact hO.mainSame h

theorem watcherRelies_same (hO : O.Sound sid ok) {s' : World srv W} (h : World.Same c.world s')
    (v : W) : O.WatcherRelies c s' v :=
  fun _ _ => hO.watcherSame h

/-- A step that changes neither the nodes nor a record, and the code of one main thread. -/
theorem holds_of_main (hO : O.Sound sid ok) (h : O.Holds c) {w : W}
    {x : Option (Callback × Code (Outcome (Option Bytes)))} (hs : World.Same c.world c'.world)
    (hm : c'.main = Function.update c.main w x) (hw : c'.watcher = c.watcher)
    (hx : O.MainOk c' w) : O.Holds c' where
  inv := hO.invSame hs h.inv
  main v := by
    by_cases hv : v = w
    · rwa [hv]
    · exact (h.main v).rely (hO.mainRelies_same hs v) (by rw [hm, Function.update_of_ne hv])
  watcher v := (h.watcher v).rely (hO.watcherRelies_same hs v) (by rw [hw])

/-- A step that changes neither the nodes nor a record, and the code of one other thread. -/
theorem holds_of_watcher (hO : O.Sound sid ok) (h : O.Holds c) {w : W} {x : Option (Code Unit)}
    (hs : World.Same c.world c'.world) (hm : c'.main = c.main)
    (hw : c'.watcher = Function.update c.watcher w x) (hx : O.WatcherOk c' w) : O.Holds c' where
  inv := hO.invSame hs h.inv
  main v := (h.main v).rely (hO.mainRelies_same hs v) (by rw [hm])
  watcher v := by
    by_cases hv : v = w
    · rwa [hv]
    · exact (h.watcher v).rely (hO.watcherRelies_same hs v) (by rw [hw, Function.update_of_ne hv])

/-- One operation of a main thread. -/
theorem holds_main (hO : O.Sound sid ok) (h : O.Holds c) {w : W} {d : Decision srv}
    (hok : ok c (.main w d)) (hstep : c.step sid (.main w d) = some c') : O.Holds c' := by
  simp only [Config.step] at hstep
  cases hmain : c.main w with
  | none => simp [hmain] at hstep
  | some x =>
    obtain ⟨cb, p⟩ := x
    rw [hmain] at hstep
    obtain ⟨⟨p', s'⟩, hadv, rfl⟩ := Option.map_eq_some_iff.mp hstep
    have hsafe := h.main w
    simp only [MainOk, hmain] at hsafe
    rcases hsafe.advance (hO.postStable w cb) hadv with
      ⟨-, rfl, hsafe'⟩ | ⟨o, r, hnext, hperf, hrest⟩
    · exact hO.holds_of_main h ⟨rfl, rfl, rfl⟩ rfl rfl (by simpa [MainOk] using hsafe')
    · obtain ⟨hsem, hguar⟩ := hO.mainOp h hok hmain hnext hperf
      obtain ⟨hg, hsafe'⟩ := hrest hsem
      obtain ⟨hinv, hmains, hwatchers⟩ := hguar hg
      refine ⟨hinv, fun v => ?_, fun v => (h.watcher v).rely (hwatchers v) rfl⟩
      by_cases hv : v = w
      · subst hv
        simpa [MainOk] using hsafe'
      · exact (h.main v).rely (hmains v hv) (Function.update_of_ne hv ..)

/-- One operation of a thread that runs `lock_watcher_fn`. -/
theorem holds_watcher (hO : O.Sound sid ok) (h : O.Holds c) {w : W} {d : Decision srv}
    (hok : ok c (.watcher w d)) (hstep : c.step sid (.watcher w d) = some c') : O.Holds c' := by
  simp only [Config.step] at hstep
  cases hwatcher : c.watcher w with
  | none => simp [hwatcher] at hstep
  | some p =>
    rw [hwatcher] at hstep
    obtain ⟨⟨p', s'⟩, hadv, rfl⟩ := Option.map_eq_some_iff.mp hstep
    have htrue : ∀ a : Unit, (O.watcher w).Stable none fun _ => True := fun _ _ _ _ _ => trivial
    rcases (h.watcher w p hwatcher).advance htrue hadv with
      ⟨-, rfl, hsafe'⟩ | ⟨o, r, hnext, hperf, hrest⟩
    · refine hO.holds_of_watcher h ⟨rfl, rfl, rfl⟩ rfl rfl fun q hq => ?_
      simp only [Function.update_self, Option.some.injEq] at hq
      rwa [← hq]
    · obtain ⟨hsem, hguar⟩ := hO.watcherOp h hok hwatcher hnext hperf
      obtain ⟨hg, hsafe'⟩ := hrest hsem
      obtain ⟨hinv, hmains, hwatchers⟩ := hguar hg
      refine ⟨hinv, fun v => (h.main v).rely (hmains v) rfl, fun v => ?_⟩
      by_cases hv : v = w
      · subst hv
        intro q hq
        simp only [Function.update_self, Option.some.injEq] at hq
        rwa [← hq]
      · exact (h.watcher v).rely (hwatchers v hv) (Function.update_of_ne hv ..)

/-- What a step of a main thread does to the world: nothing, or an operation that keeps its
contract. -/
theorem guar_main (hO : O.Sound sid ok) (h : O.Holds c) {w : W} {d : Decision srv}
    (hok : ok c (.main w d)) (hstep : c.step sid (.main w d) = some c') :
    ∃ cb p p', c.main w = some (cb, p) ∧ c'.main = Function.update c.main w (some (cb, p')) ∧
      c'.history = c.history ∧ (c'.world = c.world ∨ ∃ o r,
        c.world.perform w (sid w) .main d o = some (r, c'.world) ∧
        (O.main w cb).guar o c.world r c'.world) := by
  simp only [Config.step] at hstep
  cases hmain : c.main w with
  | none => simp [hmain] at hstep
  | some x =>
    obtain ⟨cb, p⟩ := x
    rw [hmain] at hstep
    obtain ⟨⟨p', s'⟩, hadv, rfl⟩ := Option.map_eq_some_iff.mp hstep
    refine ⟨cb, p, p', rfl, rfl, rfl, ?_⟩
    have hsafe := h.main w
    simp only [MainOk, hmain] at hsafe
    rcases hsafe.advance (hO.postStable w cb) hadv with
      ⟨-, hsame, -⟩ | ⟨o, r, hnext, hperf, hrest⟩
    · exact .inl hsame
    · exact .inr ⟨o, r, hperf, (hrest (hO.mainOp h hok hmain hnext hperf).1).1⟩

/-- What a step of a thread that runs `lock_watcher_fn` does to the world. -/
theorem guar_watcher (hO : O.Sound sid ok) (h : O.Holds c) {w : W} {d : Decision srv}
    (hok : ok c (.watcher w d)) (hstep : c.step sid (.watcher w d) = some c') :
    c'.main = c.main ∧ c'.history = c.history ∧ (c'.world = c.world ∨ ∃ o r,
      c.world.perform w (sid w) .watcher d o = some (r, c'.world) ∧
      (O.watcher w).guar o c.world r c'.world) := by
  simp only [Config.step] at hstep
  cases hwatcher : c.watcher w with
  | none => simp [hwatcher] at hstep
  | some p =>
    rw [hwatcher] at hstep
    obtain ⟨⟨p', s'⟩, hadv, rfl⟩ := Option.map_eq_some_iff.mp hstep
    refine ⟨rfl, rfl, ?_⟩
    have htrue : ∀ a : Unit, (O.watcher w).Stable none fun _ => True := fun _ _ _ _ _ => trivial
    rcases (h.watcher w p hwatcher).advance htrue hadv with
      ⟨-, hsame, -⟩ | ⟨o, r, hnext, hperf, hrest⟩
    · exact .inl hsame
    · exact .inr ⟨o, r, hperf, (hrest (hO.watcherOp h hok hwatcher hnext hperf).1).1⟩

/-- **One step of the system.** -/
theorem holds_step (hO : O.Sound sid ok) (h : O.Holds c) {l : Label srv W} (hok : ok c l)
    (hstep : c.step sid l = some c') : O.Holds c' := by
  cases l with
  | main w d => exact hO.holds_main h hok hstep
  | watcher w d => exact hO.holds_watcher h hok hstep
  | start w cb =>
    simp only [Config.step] at hstep
    cases hmain : c.main w with
    | some x => simp [hmain] at hstep
    | none =>
      rw [hmain, Option.some.injEq] at hstep
      subst hstep
      have hidle := h.main w
      simp only [MainOk, hmain] at hidle
      refine hO.holds_of_main h ⟨rfl, rfl, rfl⟩ rfl rfl ?_
      simpa [MainOk] using hO.start h hok hidle
  | finish w =>
    simp only [Config.step] at hstep
    split at hstep
    · next cb a hmain =>
      rw [Option.some.injEq] at hstep
      subst hstep
      have hsafe := h.main w
      simp only [MainOk, hmain] at hsafe
      refine hO.holds_of_main h ⟨rfl, rfl, rfl⟩ rfl rfl ?_
      simpa [MainOk] using hO.finish h hok hmain hsafe.ret
    · cases hstep
  | sessionEvent w =>
    simp only [Config.step] at hstep
    split at hstep
    · cases hstep
    · rw [Option.some.injEq] at hstep
      subst hstep
      have hs : World.Same c.world { c.world with
        events := Function.update c.world.events w (c.world.events w + 1) } := ⟨rfl, rfl, rfl⟩
      exact ⟨hO.invSame hs h.inv, fun v => (h.main v).rely (hO.mainRelies_same hs v) rfl,
        fun v => (h.watcher v).rely (hO.watcherRelies_same hs v) rfl⟩
  | notify w =>
    simp only [Config.step] at hstep
    cases hwatcher : c.watcher w with
    | some p => simp [hwatcher] at hstep
    | none =>
      rw [hwatcher] at hstep
      dsimp only at hstep
      split at hstep
      · cases hstep
      · rw [Option.some.injEq] at hstep
        subst hstep
        have hsafe := hO.notify h hok hwatcher
        refine hO.holds_of_watcher h ⟨rfl, rfl, rfl⟩ rfl rfl fun q hq => ?_
        simp only [Function.update_self, Option.some.injEq] at hq
        subst hq
        exact hsafe.rely (hO.watcherSame ⟨rfl, rfl, rfl⟩)
  | watcherDone w =>
    simp only [Config.step] at hstep
    split at hstep
    · rw [Option.some.injEq] at hstep
      subst hstep
      refine hO.holds_of_watcher h ⟨rfl, rfl, rfl⟩ rfl rfl fun q hq => ?_
      simp at hq
    · cases hstep

end Sound

/-- **Every thread keeps its contract**, in every state that a run reaches. -/
theorem holds_of_reaches (hO : O.Sound sid ok) {c₀ : Config srv W} (h₀ : O.Holds c₀)
    (h : Config.Reaches sid ok c₀ c) : O.Holds c := by
  induction h with
  | refl => exact h₀
  | step _ hok hstep ih => exact hO.holds_step ih hok hstep

end Outline

end PhpZookeeper
