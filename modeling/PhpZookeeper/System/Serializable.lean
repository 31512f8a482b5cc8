import PhpZookeeper.System.Cycles
import PhpZookeeper.Theory.Serial

/-!
# The cycles of a session are serializable

Any number of workers open, read, write and close one session. In every run in which `zkr_lock_init`
does not make `pmutex` anew while `lock_watcher_fn` holds it, the stored data is what the cycles
leave when they run one after another, in the order in which their `PS_WRITE` has returned: a worker
that has read is in turn until it has written, so the data it has read is still there.

Without that, `lock_watcher_fn` is left in the critical section of a request that has closed, finds
nobody to watch, and gives up the node by which the next request holds the lock. Then two workers
read the same data, and the update of one is lost.
-/

namespace PhpZookeeper

open Theory Prog Status

variable {srv : Server} {W : Type}

/-! ### Cycles -/

/-- `PS_READ` has returned, and not with an error. -/
def Returned.hasRead (e : Returned W) : Bool :=
  match e.callback, e.outcome with
  | .psRead _ _, .error _ => false
  | .psRead _ _, _ => true
  | _, _ => false

/-- `PS_READ` or `PS_WRITE` has returned, and the session is locked. -/
def Returned.inCycle (e : Returned W) : Bool :=
  e.hasRead || match e.callback with
    | .psWrite _ _ => true
    | _ => false

/-- The callbacks of a request that uses the session `key`, in the order in which PHP's session
module calls them: `last` has returned last, and after a `PS_READ` that has failed to get the lock
the request ends. -/
def Callback.follows (key : CString) (last : Option (Returned W)) : Callback → Bool
  | .psOpen => last.all fun e => !e.inCycle
  | .psRead g k => g.sessionLock && k = key && last.any fun e => e.callback = .psOpen
  | .psWrite k _ => k = key && last.any Returned.hasRead
  | .psClose => last.any Returned.inCycle
  | _ => false

/-- A `PS_READ` and the `PS_WRITE` after it. -/
structure Cycle (W : Type) where
  worker : W
  /-- The data that was read, if there was any. -/
  read : Option (Option Bytes)
  /-- The data that was written, unless `PS_WRITE` has failed. -/
  written : Option Bytes
  deriving DecidableEq

/-- What a cycle makes of the stored data. -/
def Cycle.leaves (cy : Cycle W) (stored : Option (Option Bytes)) : Option (Option Bytes) :=
  match cy.written with
  | some val => some (some val)
  | none => stored

/-- The callback that a worker runs. -/
def Config.callback (c : Config srv W) (w : W) : Option Callback := (c.main w).map Prod.fst

section Cycles

variable [DecidableEq W]

/-- The cycles whose `PS_WRITE` has returned, in that order. -/
def cycles : List (Returned W) → List (Cycle W)
  | [] => []
  | e :: past =>
    match e.callback with
    | .psWrite _ val =>
      cycles past ++ [{
        worker := e.worker
        read := (past.find? fun e' => e'.worker = e.worker).bind fun e' => e'.outcome.data
        written := if e.outcome = .success none then some val else none }]
    | _ => cycles past

/-- The cycles could have run one after another, and no update is lost: the stored data is what they
leave, or what a `PS_WRITE` that has not returned yet has stored. -/
structure Config.Serializable (key : CString) (c₀ c : Config srv W) : Prop where
  order : ∃ order d, order.Perm (cycles c.history) ∧
    Serial Cycle.read Cycle.leaves (c₀.world.stored key) order d ∧
    (c.world.stored key = d ∨ ∃ w k val, c.callback w = some (.psWrite k val) ∧
      c.world.stored key = some (some val))
  written : validPath (sessionPath key) false = true → ∀ cy ∈ cycles c.history, cy.written ≠ none

/-- The steps of workers that all use the session `key`, with the lock; whose requests are answered;
and that read no expired data. -/
structure Cycling (key : CString) (c : Config srv W) (l : Label srv W) : Prop where
  call : ∀ w cb, l = .start w cb → cb.follows key (c.last w) = true
  answered : ∀ w d, l = .main w d ∨ l = .watcher w d → d.Answered w c.world
  unexpired : ∀ w d g k n, l = .main w d → c.callback w = some (.psRead g k) →
    c.world.nodes (sessionPath key) = some n → g.expirationTime ≤ n.mtime

/-- The steps in which, moreover, `zkr_lock_init` does not act while `lock_watcher_fn` holds
`pmutex`, and the numbers of the lock's nodes stay below 2³¹. -/
structure CyclesAlone (sid : W → Sid) (key : CString) (c : Config srv W) (l : Label srv W) : Prop
    extends Cycling key c l where
  init : ∀ w d o, l = .main w d ∨ l = .watcher w d → c.performs l = some o → o.Inits →
    c.world.pmutex w ≠ some .watcher
  bounded : ∀ d, (c.after sid l).world.nodes (lockPath key) = some d → d.cseq ≤ 2 ^ 31

/-- Nobody has done anything yet; the directory of the sessions is there, and in the lock directory
there is nothing but the nodes of clients, if there is one. -/
structure Config.Begins (key : CString) (c : Config srv W) : Prop extends c.IsInitial where
  history : c.history = []
  parent : c.world.nodes.IsDirectory phpZkParentNode
  queue : ∃ q, IsQueue c.world.nodes (lockPath key) q
  absent : validPath (sessionPath key) false = false → c.world.nodes (sessionPath key) = none

end Cycles

namespace Cycles

/-! ### The outline -/

/-- How a callback ends. -/
def Ends (sid : W → Sid) (key : CString) (w : W) :
    Callback → Outcome (Option Bytes) → World srv W → Prop
  | .psRead _ _, out, s => (∃ message, out = .error message) ∧ Outside w .main s ∨
      (∀ message, out ≠ .error message) ∧ InCycle sid key w s ∧ s.stored key = out.data
  | .psWrite _ val, out, s => InCycle sid key w s ∧
      (out = .success none ∧ s.stored key = some (some val) ∨
        out = .failure ∧ validPath (sessionPath key) false = false)
  | _, _, s => Outside w .main s

/-- Between callbacks, a worker that has locked the session is in turn. -/
def Idle (sid : W → Sid) (key : CString) (w : W) (s : World srv W) : Prop :=
  (s.memory w).isLocked = true → InCycle sid key w s

section Outline

variable {sid : W → Sid} {key : CString} {v w : W} {th : Thread} {cb : Callback}
  {s s' : World srv W} {c c' : Config srv W} {l : Label srv W}

theorem Quiet.outside (h : Quiet sid key w s s') (hs : Outside w .main s) :
    Outside w .main s' := fun _ => h.isLocked.trans (hs rfl)

theorem Quiet.idle (h : Quiet sid key w s s') (hs : Idle sid key w s) : Idle sid key w s' :=
  fun hlocked => h.inCycle (hs (h.isLocked.symm.trans hlocked))

theorem Quiet.ends {out : Outcome (Option Bytes)} (h : Quiet sid key w s s')
    (hs : Ends sid key w cb out s) : Ends sid key w cb out s' := by
  have hstored : InCycle sid key w s → s'.stored key = s.stored key := fun hcycle =>
    stored_congr (h.inTurn hcycle.inTurn).2
  cases cb with
  | psRead g k =>
    rcases hs with ⟨hout, hs⟩ | ⟨hout, hs, hdata⟩
    · exact .inl ⟨hout, h.outside hs⟩
    · exact .inr ⟨hout, h.inCycle hs, (hstored hs).trans hdata⟩
  | psWrite k val =>
    obtain ⟨hs, hout⟩ := hs
    exact ⟨h.inCycle hs, hout.imp_left fun hok => ⟨hok.1, (hstored hs).trans hok.2⟩⟩
  | _ => exact h.outside hs

theorem Ends.idle {out : Outcome (Option Bytes)} (h : Ends sid key w cb out s) :
    Idle sid key w s := by
  have hnot : Outside w .main s → Idle sid key w s := fun hs hlocked => by
    rw [hs rfl] at hlocked
    cases hlocked
  cases cb with
  | psRead g k => exact h.elim (fun h => hnot h.2) fun h _ => h.2.1
  | psWrite k val => exact fun _ => h.1
  | _ => exact hnot h

theorem CycleInv.same (h : CycleInv sid key s) (hs : World.Same s s') : CycleInv sid key s' := by
  have hpmutex : ∀ v, s'.pmutex v = s.pmutex v := fun v => by rw [World.pmutex, hs.memory]; rfl
  refine ⟨?_, ?_, ?_, ?_, ?_, fun v => ?_⟩
  · rw [hs.nodes]
    exact h.queue
  · rw [hs.views]
    exact h.views
  · rw [hs.tree, hs.views]
    exact h.seen
  · rw [hs.nodes]
    exact h.parent
  · rw [hs.nodes]
    exact h.absent
  · obtain ⟨hpath, hown, hid, hownerid⟩ := h.record v
    refine ⟨?_, ?_, ?_, ?_⟩ <;> rw [hs.memory]
    · exact hpath
    · exact hown
    · intro x hx
      refine (hid x hx).imp (fun hpresent => ?_) fun hleaving => ?_
      · rwa [Present, hs.nodes]
      · rwa [Leaving, hpmutex, hs.memory]
    · intro x hx
      obtain ⟨hissued, hheld⟩ := hownerid x hx
      refine ⟨?_, ?_⟩
      · rwa [hs.nodes]
      · rwa [hs.tree, hs.views]

theorem Quiet.same (hs : World.Same s s') : Quiet sid key w s s' where
  isLocked := by rw [hs.memory]
  path := by rw [hs.memory]
  pmutex hne := by rwa [World.pmutex, hs.memory]
  inTurn h := by
    refine ⟨?_, by rw [hs.nodes]⟩
    rwa [InTurn, hs.tree, hs.views]

theorem LeftAlone.same (hs : World.Same s s') : LeftAlone sid key w th s s' := by
  refine fun hth => ⟨?_, by rw [hs.memory], fun x _ hx => ?_⟩
  · rwa [World.pmutex, hs.memory]
  · rwa [Present, hs.nodes]

theorem Right.same {x : CString} (h : Right sid key w x s) (hs : World.Same s s') :
    Right sid key w x s' := by
  refine ⟨?_, ?_⟩
  · rw [hs.nodes]
    exact h.issued
  · rw [hs.tree, hs.views]
    exact h.held

variable [DecidableEq W]

/-- Both threads of each worker keep their contracts. -/
def cyclesOutline (sid : W → Sid) (key : CString) : Outline srv W where
  inv := CycleInv sid key
  idle := Idle sid key
  main w cb := cycleContract sid key w .main (some cb)
  post := Ends sid key
  watcher w := cycleContract sid key w .watcher none

/-- What a thread can rely on, of a step that the worker `w` makes. -/
theorem rely_of_moves {x : Option Callback} {o : Option Op} (hinv : CycleInv sid key s)
    (hmoves : Moves sid key w s s') (halone : LeftAlone sid key v th s s')
    (hquiet : th = .main → Quiet sid key v s s') :
    (cycleContract sid key v th x : Contract Op.Res (World srv W)).rely o s s' :=
  ⟨halone, fun _ _ hx => hx.moves hinv hmoves, hquiet⟩

omit [DecidableEq W] in
/-- Another worker's step. -/
theorem alone_of_moves (hsid : Function.Injective sid) (hinv : CycleInv sid key s)
    (hmoves : Moves sid key w s s') (hmem : s'.memory v = s.memory v) (hne : v ≠ w) :
    (∀ th, LeftAlone sid key v th s s') ∧ Quiet sid key v s s' := by
  have hkept := hmoves.kept_of_ne hsid hinv hne
  have hpmutex : s'.pmutex v = s.pmutex v := by
    rw [World.pmutex, hmem]
    rfl
  refine ⟨fun th hth => ⟨hpmutex.trans hth, by rw [hmem], hkept⟩, by rw [hmem], by rw [hmem],
    fun hfree => by rwa [hpmutex], fun hturn => ?_⟩
  exact ⟨hturn.moves hmoves hkept, hmoves.held_of_ne hsid hturn.serves hne⟩

/-- The main thread of a worker can rely on a step that leaves it alone. -/
theorem mainRelies_of_moves (hinv : CycleInv sid key c.world) (hmoves : Moves sid key w c.world s')
    (halone : LeftAlone sid key v .main c.world s') (hquiet : Quiet sid key v c.world s') :
    (cyclesOutline sid key).MainRelies c s' v := by
  unfold Outline.MainRelies
  cases c.main v with
  | none => exact hquiet.idle
  | some x => exact rely_of_moves hinv hmoves halone fun _ => hquiet

theorem watcherRelies_of_moves (hinv : CycleInv sid key c.world)
    (hmoves : Moves sid key w c.world s') (halone : LeftAlone sid key v .watcher c.world s') :
    (cyclesOutline sid key).WatcherRelies c s' v :=
  fun _ _ => rely_of_moves hinv hmoves halone nofun

/-- What is asked of an operation of these steps. -/
theorem sem_of_ok {d : Decision srv} {o : Op} {r : o.Res} {x : Option Callback}
    (hinv : CycleInv sid key c.world) (hok : CyclesAlone sid key c l)
    (hl : l = .main w d ∨ l = .watcher w d) (ho : c.performs l = some o)
    (hafter : (c.after sid l).world = s')
    (hx : ∀ g k, x = some (.psRead g k) → l = .main w d ∧ c.callback w = x)
    (hperf : c.world.perform w (sid w) th d o = some (r, s')) :
    (cycleContract sid key w th x).sem o c.world r s' := by
  have hbound := hok.bounded
  rw [hafter] at hbound
  refine ⟨hinv, ⟨hok.init w d o hl ho, hbound, fun g k n hcb hn => ?_⟩, d, hok.answered w d hl,
    hperf⟩
  obtain ⟨hmain, hcallback⟩ := hx g k hcb
  exact hok.unexpired w d g k n hmain (hcallback.trans hcb) hn

/-- The session is locked between the callbacks of a cycle. -/
def LinkedAt (c : Config srv W) (w : W) : Prop :=
  (c.world.memory w).isLocked = (c.last w).any Returned.inCycle

/-- A callback that follows the last one is safe. -/
theorem safe_start (hsid : Function.Injective sid) (hkey : ShortKey key)
    (hfollows : cb.follows key (c.last w) = true) (hlinked : LinkedAt c w)
    (hidle : Idle sid key w c.world) :
    Safe (cycleContract sid key w .main (some cb)) (cb.code (sid w)) (Ends sid key w cb)
      c.world := by
  have hstable : ∀ out, (cycleContract sid key w .main (some cb) :
      Contract Op.Res (World srv W)).Stable none (Ends sid key w cb out) :=
    fun _ _ _ hr hs => (hr.2.2 rfl).ends hs
  have houtside : (c.last w).any Returned.inCycle = false → Outside w .main c.world :=
    fun hlast _ => hlinked.trans hlast
  unfold LinkedAt at hlinked
  cases cb with
  | psOpen =>
    have hret : Triple (cycleContract sid key w .main (some .psOpen) :
        Contract Op.Res (World srv W)) (Outside w .main) (Callback.psOpen.code (sid w))
        (Ends sid key w .psOpen) := .ret fun _ hs => hs
    refine hret.safe hstable (houtside ?_)
    cases hlast : c.last w with
    | none => rfl
    | some e => simpa [Callback.follows, hlast] using hfollows
  | psRead g k =>
    simp only [Callback.follows, Bool.and_eq_true, decide_eq_true_eq] at hfollows
    obtain ⟨⟨hg, rfl⟩, hopen⟩ := hfollows
    have hread : Triple (cycleContract sid k w .main (some (.psRead g k)) :
        Contract Op.Res (World srv W)) (Outside w .main) ((Callback.psRead g k).code (sid w))
        (Ends sid k w (.psRead g k)) := triple_psRead hsid hkey hg k
    refine hread.safe hstable (houtside ?_)
    obtain ⟨e, hlast, hcb⟩ := (Option.any_eq_true ..).mp hopen
    simp only [decide_eq_true_eq] at hcb
    simp [hlast, Returned.inCycle, Returned.hasRead, hcb]
  | psWrite k val =>
    simp only [Callback.follows, Bool.and_eq_true, decide_eq_true_eq] at hfollows
    obtain ⟨rfl, hread⟩ := hfollows
    have hwrite : Triple (cycleContract sid k w .main (some (.psWrite k val)) :
        Contract Op.Res (World srv W)) (InCycle sid k w) ((Callback.psWrite k val).code (sid w))
        (Ends sid k w (.psWrite k val)) := by
      refine (triple_psWrite hsid hkey k val).bind fun out => .ret fun s hs => ⟨hs.1, ?_⟩
      rcases hs.2 with ⟨rfl, hdata⟩ | ⟨rfl, hv⟩
      · exact .inl ⟨rfl, hdata⟩
      · exact .inr ⟨rfl, hv⟩
    obtain ⟨e, hlast, hcb⟩ := (Option.any_eq_true ..).mp hread
    refine hwrite.safe hstable (hidle (hlinked.trans ?_))
    simp [hlast, Returned.inCycle, hcb]
  | psClose =>
    have hclose : Triple (cycleContract sid key w .main (some .psClose) :
        Contract Op.Res (World srv W)) (fun _ => True) (Callback.psClose.code (sid w))
        (Ends sid key w .psClose) :=
      (triple_psClose hsid hkey).bind fun _ => .ret fun _ hs => hs
    exact hclose.safe hstable trivial
  | psDestroy k => cases hfollows
  | psGc g => cases hfollows

/-- **The outline holds** in the steps of these runs, when the record tells what has been called. -/
theorem cyclesOutline_sound (hsid : Function.Injective sid) (hkey : ShortKey key) :
    (cyclesOutline sid key : Outline srv W).Sound sid fun c l =>
      CyclesAlone sid key c l ∧ ∀ w cb, l = .start w cb → LinkedAt c w where
  invSame hs h := h.same hs
  idleSame hs h := (Quiet.same hs).idle h
  mainSame hs := ⟨.same hs, fun _ _ hx => hx.same hs, fun _ => .same hs⟩
  watcherSame hs := ⟨.same hs, fun _ _ hx => hx.same hs, nofun⟩
  postStable _ _ _ _ _ hr hs := (hr.2.2 rfl).ends hs
  start {c w cb} _ hok hidle :=
    safe_start hsid hkey (hok.1.call w cb rfl) (hok.2 w cb rfl) hidle
  finish _ _ _ h := h.idle
  notify _ _ _ :=
    (triple_lockWatcherFn hsid hkey).safe (fun _ => Contract.Stable.true _) trivial
  mainOp {c w d cb p o r s'} h hok hmain hnext hperf := by
    obtain ⟨c', hstep, hs'⟩ := Config.step_main hmain hnext hperf
    have hsem : (cycleContract sid key w .main (some cb)).sem o c.world r s' :=
      sem_of_ok h.inv hok.1 (.inl rfl) (by simp [Config.performs, hmain, hnext])
        (by rw [Config.after_of_step hstep, hs'])
        (fun g k _ => ⟨rfl, by simp [Config.callback, hmain]⟩) hperf
    refine ⟨hsem, fun hg => ⟨hg.1, fun v hv => ?_, fun v => ?_⟩⟩
    · obtain ⟨halone, hquiet⟩ :=
        alone_of_moves hsid h.inv hg.2.1 (memory_of_ne hperf hv) hv
      exact mainRelies_of_moves h.inv hg.2.1 (halone .main) hquiet
    · refine watcherRelies_of_moves h.inv hg.2.1 ?_
      by_cases hv : v = w
      · subst hv
        exact hg.2.2.1 .watcher (by decide)
      · exact (alone_of_moves hsid h.inv hg.2.1 (memory_of_ne hperf hv) hv).1 .watcher
  watcherOp {c w d p o r s'} h hok hwatcher hnext hperf := by
    obtain ⟨c', hstep, hs'⟩ := Config.step_watcher hwatcher hnext hperf
    have hsem : (cycleContract sid key w .watcher none).sem o c.world r s' :=
      sem_of_ok h.inv hok.1 (.inr rfl) (by simp [Config.performs, hwatcher, hnext])
        (by rw [Config.after_of_step hstep, hs']) nofun hperf
    refine ⟨hsem, fun hg => ⟨hg.1, fun v => ?_, fun v hv => ?_⟩⟩
    · by_cases hv : v = w
      · subst hv
        exact mainRelies_of_moves h.inv hg.2.1 (hg.2.2.1 .main (by decide)) (hg.2.2.2.2 rfl)
      · obtain ⟨halone, hquiet⟩ :=
          alone_of_moves hsid h.inv hg.2.1 (memory_of_ne hperf hv) hv
        exact mainRelies_of_moves h.inv hg.2.1 (halone .main) hquiet
    · exact watcherRelies_of_moves h.inv hg.2.1
        ((alone_of_moves hsid h.inv hg.2.1 (memory_of_ne hperf hv) hv).1 .watcher)

end Outline

/-! ### The log -/

section Log

variable [DecidableEq W] {sid : W → Sid} {key : CString} {v w : W} {c₀ c c' : Config srv W}
  {l : Label srv W}

/-- What `PS_READ` of the worker has returned is still the data the worker is to change. -/
def Reading (c : Config srv W) (w : W) : Prop :=
  c.callback w = none ∨ ∃ k val, c.callback w = some (.psWrite k val)

/-- The cycles so far have run one after another, and left `d`. -/
structure Logged (key : CString) (c₀ c : Config srv W) (d : Option (Option Bytes)) : Prop where
  serial : Serial Cycle.read Cycle.leaves (c₀.world.stored key) (cycles c.history) d
  stored : c.world.stored key = d ∨ ∃ w k val, c.callback w = some (.psWrite k val) ∧
    c.world.stored key = some (some val)
  read : ∀ w e, c.last w = some e → e.hasRead = true → Reading c w → e.outcome.data = d

/-- What is true in every state of these runs. -/
structure LogInv (sid : W → Sid) (key : CString) (c₀ c : Config srv W) : Prop where
  holds : (cyclesOutline sid key).Holds c
  linked : ∀ w, c.callback w = none → LinkedAt c w
  writing : ∀ w k val, c.callback w = some (.psWrite k val) →
    InTurn sid key w c.world ∧ (c.last w).any Returned.hasRead = true
  written : validPath (sessionPath key) false = true → ∀ cy ∈ cycles c.history, cy.written ≠ none
  log : ∃ d, Logged key c₀ c d

omit [DecidableEq W] in
theorem callback_of_main {cb : Callback} {p : Code (Outcome (Option Bytes))}
    (h : c.main w = some (cb, p)) : c.callback w = some cb := by
  simp [Config.callback, h]

theorem LogInv.idle (h : LogInv sid key c₀ c) (hw : c.callback w = none) :
    Idle sid key w c.world := by
  have hmain := h.holds.main w
  unfold Outline.MainOk at hmain
  rw [Config.callback, Option.map_eq_none_iff] at hw
  rw [hw] at hmain
  exact hmain

/-- A worker whose `PS_READ` has returned is in turn until its `PS_WRITE` has. -/
theorem LogInv.inTurn (h : LogInv sid key c₀ c) {e : Returned W} (hlast : c.last w = some e)
    (he : e.hasRead = true) (hw : Reading c w) : InTurn sid key w c.world := by
  rcases hw with hw | ⟨k, val, hw⟩
  · refine (h.idle hw ((h.linked w hw).trans ?_)).inTurn
    simp [hlast, Returned.inCycle, he]
  · exact (h.writing w k val hw).1

/-- While a worker is in turn no other one writes. -/
theorem LogInv.stored_eq (h : LogInv sid key c₀ c) (hsid : Function.Injective sid)
    {d : Option (Option Bytes)} (hd : Logged key c₀ c d) (hw : InTurn sid key w c.world)
    (hcb : ∀ k val, c.callback w ≠ some (.psWrite k val)) : c.world.stored key = d := by
  rcases hd.stored with hstored | ⟨v, k, val, hv, -⟩
  · exact hstored
  · obtain rfl : v = w := hsid ((h.writing v k val hv).1.serves.unique hw.serves)
    exact absurd hv (hcb k val)

/-- A step in which no callback starts or returns: the data changes only as a `PS_WRITE` that runs
has it. -/
theorem LogInv.step (h : LogInv sid key c₀ c) (hholds : (cyclesOutline sid key).Holds c')
    (hhistory : c'.history = c.history) (hcallback : ∀ v, c'.callback v = c.callback v)
    (hlocked : ∀ v, c.callback v = none →
      (c'.world.memory v).isLocked = (c.world.memory v).isLocked)
    (hturn : ∀ v k val, c.callback v = some (.psWrite k val) → InTurn sid key v c.world →
      InTurn sid key v c'.world)
    (hstored : c'.world.stored key = c.world.stored key ∨ ∃ v k val,
      c.callback v = some (.psWrite k val) ∧ c'.world.stored key = some (some val)) :
    LogInv sid key c₀ c' := by
  have hlast : ∀ v, c'.last v = c.last v := fun v => by rw [Config.last, hhistory]; rfl
  obtain ⟨d, hd⟩ := h.log
  refine ⟨hholds, fun v hv => ?_, fun v k val hv => ?_, ?_, d, ?_, ?_, fun v e he hread hv => ?_⟩
  · rw [hcallback] at hv
    rw [LinkedAt, hlocked v hv, hlast]
    exact h.linked v hv
  · rw [hcallback] at hv
    rw [hlast]
    obtain ⟨hserves, hread⟩ := h.writing v k val hv
    exact ⟨hturn v k val hv hserves, hread⟩
  · rw [hhistory]
    exact h.written
  · rw [hhistory]
    exact hd.serial
  · simp only [hcallback]
    rcases hstored with hsame | hnew
    · rw [hsame]
      exact hd.stored
    · exact .inr hnew
  · rw [hlast] at he
    unfold Reading at hv
    rw [hcallback] at hv
    exact hd.read v e he hread hv

/-- A step that leaves the nodes and the records. -/
theorem LogInv.same (h : LogInv sid key c₀ c) (hholds : (cyclesOutline sid key).Holds c')
    (hs : World.Same c.world c'.world) (hhistory : c'.history = c.history)
    (hcallback : ∀ v, c'.callback v = c.callback v) : LogInv sid key c₀ c' := by
  refine h.step hholds hhistory hcallback (fun v _ => by rw [hs.memory])
    (fun v k val _ hv => ?_) (.inl ?_)
  · rwa [InTurn, hs.tree, hs.views]
  · rw [World.stored, hs.nodes]
    rfl

/-- An operation of a main thread. -/
theorem LogInv.step_main (h : LogInv sid key c₀ c) (hsid : Function.Injective sid)
    (hholds : (cyclesOutline sid key).Holds c') {d : Decision srv} {cb : Callback}
    {p p' : Code (Outcome (Option Bytes))} (hmain : c.main w = some (cb, p))
    (hmain' : c'.main = Function.update c.main w (some (cb, p')))
    (hhistory : c'.history = c.history) (hworld : c'.world = c.world ∨ ∃ o r,
      c.world.perform w (sid w) .main d o = some (r, c'.world) ∧
      ((cyclesOutline sid key).main w cb).guar o c.world r c'.world) :
    LogInv sid key c₀ c' := by
  have hcb := callback_of_main hmain
  have hcallback : ∀ v, c'.callback v = c.callback v := by
    intro v
    by_cases hv : v = w
    · rw [hv, hcb, Config.callback, hmain', Function.update_self]
      rfl
    · rw [Config.callback, hmain', Function.update_of_ne hv]
      rfl
  rcases hworld with hsame | ⟨o, r, hperf, hinv', hmoves, -, heffect, -⟩
  · exact h.same hholds (by rw [hsame]; exact ⟨rfl, rfl, rfl⟩) hhistory hcallback
  refine h.step hholds hhistory hcallback (fun v hv => ?_) (fun v k val hv hturn => ?_) ?_
  · have hne : v ≠ w := by
      rintro rfl
      rw [hcb] at hv
      cases hv
    rw [memory_of_ne hperf hne]
  · by_cases hne : v = w
    · subst hne
      rw [hcb] at hv
      refine hturn.moves hmoves (heffect.kept.resolve_left fun hclose => ?_)
      rw [hv] at hclose
      cases hclose
    · exact hturn.moves hmoves (hmoves.kept_of_ne hsid h.holds.inv hne)
  · rcases heffect.data with hheld | ⟨k, val, hwrite, hstored⟩
    · exact .inl (stored_congr hheld)
    · exact .inr ⟨w, k, val, hcb.trans hwrite, hstored⟩

/-- An operation of a thread that runs `lock_watcher_fn`. -/
theorem LogInv.step_watcher (h : LogInv sid key c₀ c) (hsid : Function.Injective sid)
    (hholds : (cyclesOutline sid key).Holds c') {d : Decision srv} (hmain : c'.main = c.main)
    (hhistory : c'.history = c.history) (hworld : c'.world = c.world ∨ ∃ o r,
      c.world.perform w (sid w) .watcher d o = some (r, c'.world) ∧
      ((cyclesOutline sid key).watcher w).guar o c.world r c'.world) :
    LogInv sid key c₀ c' := by
  have hcallback : ∀ v, c'.callback v = c.callback v := fun v => by
    rw [Config.callback, hmain]
    rfl
  rcases hworld with hsame | ⟨o, r, hperf, hinv', hmoves, -, heffect, hquiet⟩
  · exact h.same hholds (by rw [hsame]; exact ⟨rfl, rfl, rfl⟩) hhistory hcallback
  refine h.step hholds hhistory hcallback (fun v _ => ?_) (fun v k val _ hturn => ?_) ?_
  · by_cases hne : v = w
    · rw [hne]
      exact (hquiet rfl).isLocked
    · rw [memory_of_ne hperf hne]
  · by_cases hne : v = w
    · subst hne
      exact ((hquiet rfl).inTurn hturn).1
    · exact hturn.moves hmoves (hmoves.kept_of_ne hsid h.holds.inv hne)
  · rcases heffect.data with hheld | ⟨k, val, hwrite, -⟩
    · exact .inl (stored_congr hheld)
    · cases hwrite

/-- A callback starts. -/
theorem LogInv.start (h : LogInv sid key c₀ c) {cb : Callback}
    {p : Code (Outcome (Option Bytes))} (hmain : c.main w = none)
    (hfollows : cb.follows key (c.last w) = true)
    (hholds : (cyclesOutline sid key).Holds
      { c with main := Function.update c.main w (some (cb, p)) }) :
    LogInv sid key c₀ { c with main := Function.update c.main w (some (cb, p)) } := by
  have hnone : c.callback w = none := by simp [Config.callback, hmain]
  have hself : Config.callback { c with main := Function.update c.main w (some (cb, p)) } w =
      some cb := by simp [Config.callback]
  have hother : ∀ v, v ≠ w → Config.callback
      { c with main := Function.update c.main w (some (cb, p)) } v = c.callback v := fun v hv => by
    simp [Config.callback, Function.update_of_ne hv]
  obtain ⟨d, hd⟩ := h.log
  refine ⟨hholds, fun v hv => ?_, fun v k val hv => ?_, h.written, d, hd.serial, ?_,
    fun v e he hread hv => ?_⟩
  · by_cases hne : v = w
    · rw [hne, hself] at hv
      cases hv
    · rw [hother v hne] at hv
      exact h.linked v hv
  · by_cases hne : v = w
    · subst hne
      rw [hself, Option.some.injEq] at hv
      subst hv
      simp only [Callback.follows, Bool.and_eq_true] at hfollows
      obtain ⟨e, hlast, hread⟩ := (Option.any_eq_true ..).mp hfollows.2
      exact ⟨h.inTurn hlast hread (.inl hnone), hfollows.2⟩
    · rw [hother v hne] at hv
      exact h.writing v k val hv
  · refine hd.stored.imp_right ?_
    rintro ⟨v, k, val, hv, hstored⟩
    have hne : v ≠ w := by
      rintro rfl
      rw [hnone] at hv
      cases hv
    exact ⟨v, k, val, (hother v hne).trans hv, hstored⟩
  · by_cases hne : v = w
    · subst hne
      exact hd.read v e he hread (.inl hnone)
    · unfold Reading at hv
      rw [hother v hne] at hv
      exact hd.read v e he hread hv

omit [DecidableEq W] in
/-- What a callback that ends says of the lock is what the record says. -/
theorem Ends.isLocked {cb : Callback} {out : Outcome (Option Bytes)} {s : World srv W}
    (h : Ends sid key w cb out s) :
    (s.memory w).isLocked = Returned.inCycle ⟨w, cb, out⟩ := by
  cases cb with
  | psRead g k =>
    rcases h with ⟨⟨message, rfl⟩, hs⟩ | ⟨hout, hs, -⟩
    · exact hs rfl
    · cases out with
      | error message => exact absurd rfl (hout message)
      | _ => exact hs.isLocked
  | psWrite k val => exact h.1.isLocked
  | _ => exact h rfl

omit [DecidableEq W] in
/-- A `PS_READ` that has ended has read what is stored. -/
theorem Ends.of_hasRead {cb : Callback} {out : Outcome (Option Bytes)} {s : World srv W}
    (h : Ends sid key w cb out s) (hread : Returned.hasRead ⟨w, cb, out⟩ = true) :
    InTurn sid key w s ∧ s.stored key = out.data := by
  cases cb with
  | psRead g k =>
    rcases h with ⟨⟨message, rfl⟩, -⟩ | ⟨-, hs, hdata⟩
    · cases hread
    · exact ⟨hs.inTurn, hdata⟩
  | _ => cases hread

/-- A callback returns that is no `PS_WRITE`. -/
theorem LogInv.log_of_ne (h : LogInv sid key c₀ c) (hsid : Function.Injective sid) {cb : Callback}
    {out : Outcome (Option Bytes)} (hcb : c.callback w = some cb)
    (hwrite : ∀ k val, cb ≠ .psWrite k val) (hends : Ends sid key w cb out c.world)
    (hworld : c'.world = c.world) (hhistory : c'.history = ⟨w, cb, out⟩ :: c.history)
    (hother : ∀ v, v ≠ w → c'.callback v = c.callback v)
    (hlast : ∀ v, v ≠ w → c'.last v = c.last v) :
    cycles c'.history = cycles c.history ∧ ∃ d, Logged key c₀ c' d := by
  have hcycles : cycles c'.history = cycles c.history := by
    rw [hhistory]
    cases cb with
    | psWrite k val => exact absurd rfl (hwrite k val)
    | _ => rfl
  obtain ⟨d, hd⟩ := h.log
  refine ⟨hcycles, d, ?_, ?_, fun v e he hread hv => ?_⟩
  · rw [hcycles]
    exact hd.serial
  · rw [hworld]
    refine hd.stored.imp_right ?_
    rintro ⟨v, k, val, hv, hstored⟩
    have hne : v ≠ w := by
      rintro rfl
      exact hwrite k val (Option.some.inj (hcb.symm.trans hv))
    exact ⟨v, k, val, (hother v hne).trans hv, hstored⟩
  · by_cases hne : v = w
    · subst hne
      rw [Config.last, hhistory, List.find?_cons_of_pos (by simp), Option.some.injEq] at he
      subst he
      obtain ⟨hturn, hdata⟩ := hends.of_hasRead hread
      rw [← hdata]
      refine h.stored_eq hsid hd hturn fun k val hv => ?_
      exact hwrite k val (Option.some.inj (hcb.symm.trans hv))
    · rw [hlast v hne] at he
      unfold Reading at hv
      rw [hother v hne] at hv
      exact hd.read v e he hread hv

/-- `PS_WRITE` returns: a cycle more, which has read what the last one has left. -/
theorem LogInv.log_of_write (h : LogInv sid key c₀ c) (hsid : Function.Injective sid)
    {k : CString} {val : Bytes} {out : Outcome (Option Bytes)}
    (hcb : c.callback w = some (.psWrite k val))
    (hends : Ends sid key w (.psWrite k val) out c.world) (hworld : c'.world = c.world)
    (hhistory : c'.history = ⟨w, .psWrite k val, out⟩ :: c.history)
    (hother : ∀ v, v ≠ w → c'.callback v = c.callback v)
    (hlast : ∀ v, v ≠ w → c'.last v = c.last v) :
    (validPath (sessionPath key) false = true → ∀ cy ∈ cycles c'.history, cy.written ≠ none) ∧
      ∃ d, Logged key c₀ c' d := by
  obtain ⟨hturn, hread⟩ := h.writing w k val hcb
  obtain ⟨e, hlastw, he⟩ := (Option.any_eq_true ..).mp hread
  obtain ⟨d, hd⟩ := h.log
  let cy : Cycle W := {
    worker := w
    read := (c.last w).bind fun e => e.outcome.data
    written := if out = .success none then some val else none }
  have hcycles : cycles c'.history = cycles c.history ++ [cy] := by rw [hhistory]; rfl
  have hcy : cy.read = d := by
    have hdata := hd.read w e hlastw he (.inr ⟨k, val, hcb⟩)
    simpa [cy, hlastw] using hdata
  refine ⟨fun hv cy' hcy' => ?_, cy.leaves d, ?_, .inl ?_, fun v e' he' hread' hv => ?_⟩
  · rw [hcycles, List.mem_append, List.mem_singleton] at hcy'
    rcases hcy' with hcy' | rfl
    · exact h.written hv cy' hcy'
    · rcases hends.2 with ⟨hout, -⟩ | ⟨-, hinvalid⟩
      · simp [cy, hout]
      · rw [hv] at hinvalid
        cases hinvalid
  · rw [hcycles]
    exact hd.serial.concat hcy
  · rw [hworld]
    rcases hends.2 with ⟨hout, hstored⟩ | ⟨hout, hinvalid⟩
    · rw [hstored]
      simp [cy, Cycle.leaves, hout]
    · have hnone : c.world.stored key = none := by
        rw [World.stored, h.holds.inv.absent hinvalid, Option.map_none]
      have hsame : cy.leaves d = d := by simp [cy, Cycle.leaves, hout]
      rw [hsame]
      refine hd.stored.resolve_right ?_
      rintro ⟨v, k', val', -, hsome⟩
      rw [hnone] at hsome
      cases hsome
  · by_cases hne : v = w
    · subst hne
      rw [Config.last, hhistory, List.find?_cons_of_pos (by simp), Option.some.injEq] at he'
      subst he'
      cases hread'
    · rw [hlast v hne] at he'
      unfold Reading at hv
      rw [hother v hne] at hv
      -- another worker that has read would be in turn too
      exact absurd (hsid ((h.inTurn he' hread' hv).serves.unique hturn.serves)) hne

/-- A callback returns. -/
theorem LogInv.finish (h : LogInv sid key c₀ c) (hsid : Function.Injective sid) {cb : Callback}
    {out : Outcome (Option Bytes)} (hcb : c.callback w = some cb)
    (hends : Ends sid key w cb out c.world) (hholds : (cyclesOutline sid key).Holds c')
    (hworld : c'.world = c.world) (hmain : c'.main = Function.update c.main w none)
    (hhistory : c'.history = ⟨w, cb, out⟩ :: c.history) : LogInv sid key c₀ c' := by
  have hother : ∀ v, v ≠ w → c'.callback v = c.callback v := fun v hv => by
    rw [Config.callback, hmain, Function.update_of_ne hv]
    rfl
  have hself : c'.callback w = none := by simp [Config.callback, hmain]
  have hlast : ∀ v, v ≠ w → c'.last v = c.last v := fun v hv => by
    rw [Config.last, hhistory, List.find?_cons_of_neg (by simpa using hv.symm)]
    rfl
  have hlog : (validPath (sessionPath key) false = true →
      ∀ cy ∈ cycles c'.history, cy.written ≠ none) ∧ ∃ d, Logged key c₀ c' d := by
    by_cases hwrite : ∃ k val, cb = .psWrite k val
    · obtain ⟨k, val, rfl⟩ := hwrite
      exact h.log_of_write hsid hcb hends hworld hhistory hother hlast
    · obtain ⟨hcycles, hd⟩ := h.log_of_ne hsid hcb (fun k val heq => hwrite ⟨k, val, heq⟩) hends
        hworld hhistory hother hlast
      rw [hcycles]
      exact ⟨h.written, hd⟩
  refine ⟨hholds, fun v hv => ?_, fun v k val hv => ?_, hlog.1, hlog.2⟩
  · by_cases hne : v = w
    · subst hne
      rw [LinkedAt, hworld, hends.isLocked, Config.last, hhistory,
        List.find?_cons_of_pos (by simp)]
      rfl
    · rw [hother v hne] at hv
      rw [LinkedAt, hworld, hlast v hne]
      exact h.linked v hv
  · by_cases hne : v = w
    · rw [hne, hself] at hv
      cases hv
    · rw [hother v hne] at hv
      rw [hworld, hlast v hne]
      exact h.writing v k val hv

/-- **One step of these runs.** -/
theorem LogInv.next (h : LogInv sid key c₀ c) (hsid : Function.Injective sid)
    (hkey : ShortKey key) (hok : CyclesAlone sid key c l) (hstep : c.step sid l = some c') :
    LogInv sid key c₀ c' := by
  have hsound : (cyclesOutline sid key : Outline srv W).Sound sid fun c l =>
    CyclesAlone sid key c l ∧ ∀ w cb, l = .start w cb → LinkedAt c w :=
      cyclesOutline_sound hsid hkey
  have hlinked : ∀ w cb, l = .start w cb → LinkedAt c w := by
    rintro w cb rfl
    refine h.linked w ?_
    cases hmain : c.main w with
    | none => simp [Config.callback, hmain]
    | some x => simp [Config.step, hmain] at hstep
  have hholds : (cyclesOutline sid key).Holds c' := hsound.holds_step h.holds ⟨hok, hlinked⟩ hstep
  cases l with
  | main w d =>
    obtain ⟨cb, p, p', hmain, hmain', hhistory, hworld⟩ :=
      hsound.guar_main h.holds ⟨hok, hlinked⟩ hstep
    exact h.step_main hsid hholds hmain hmain' hhistory hworld
  | watcher w d =>
    obtain ⟨hmain, hhistory, hworld⟩ := hsound.guar_watcher h.holds ⟨hok, hlinked⟩ hstep
    exact h.step_watcher hsid hholds hmain hhistory hworld
  | start w cb =>
    simp only [Config.step] at hstep
    cases hmain : c.main w with
    | some x => simp [hmain] at hstep
    | none =>
      rw [hmain, Option.some.injEq] at hstep
      subst hstep
      exact h.start hmain (hok.call w cb rfl) hholds
  | finish w =>
    simp only [Config.step] at hstep
    split at hstep
    · next cb out hmain =>
      rw [Option.some.injEq] at hstep
      subst hstep
      have hsafe := h.holds.main w
      simp only [Outline.MainOk, hmain] at hsafe
      exact h.finish hsid (callback_of_main hmain) hsafe.ret hholds rfl rfl rfl
    · cases hstep
  | sessionEvent w =>
    simp only [Config.step] at hstep
    split at hstep
    · cases hstep
    · rw [Option.some.injEq] at hstep
      subst hstep
      exact h.same hholds ⟨rfl, rfl, rfl⟩ rfl fun _ => rfl
  | notify w =>
    simp only [Config.step] at hstep
    split at hstep
    · split at hstep
      · cases hstep
      · rw [Option.some.injEq] at hstep
        subst hstep
        exact h.same hholds ⟨rfl, rfl, rfl⟩ rfl fun _ => rfl
    · cases hstep
  | watcherDone w =>
    simp only [Config.step] at hstep
    split at hstep
    · rw [Option.some.injEq] at hstep
      subst hstep
      exact h.same hholds ⟨rfl, rfl, rfl⟩ rfl fun _ => rfl
    · cases hstep

/-- Before the first callback. -/
theorem logInv_of_begins (h : c.Begins key) : LogInv sid key c c := by
  have hcallback : ∀ w, c.callback w = none := fun w => by simp [Config.callback, h.main]
  have hlast : ∀ w, c.last w = none := fun w => by simp [Config.last, h.history]
  refine ⟨⟨⟨h.queue, fun w T hT => ?_, fun w => ?_, h.parent, h.absent, fun w => ?_⟩, fun w => ?_,
    fun w p hp => ?_⟩, fun w _ => ?_, fun w k val hw => ?_, fun _ => ?_, c.world.stored key, ?_,
    .inl rfl, fun w e he => ?_⟩
  · rw [h.views] at hT
    cases hT
  · rw [h.views]
    exact List.pairwise_singleton ..
  · refine ⟨?_, ?_, ?_, ?_⟩ <;> rw [h.memory] <;> exact nofun
  · unfold Outline.MainOk
    rw [h.main]
    intro hlocked
    rw [h.memory] at hlocked
    cases hlocked
  · rw [h.watcher] at hp
    cases hp
  · rw [LinkedAt, h.memory, hlast]
    rfl
  · rw [hcallback] at hw
    cases hw
  · rw [h.history]
    exact nofun
  · rw [h.history]
    exact .nil
  · rw [hlast] at he
    cases he

/-- The invariant of these runs. -/
theorem logInv_of_reaches (hsid : Function.Injective sid) (hkey : ShortKey key)
    (h₀ : c₀.Begins key) (h : Config.Reaches sid (CyclesAlone sid key) c₀ c) :
    LogInv sid key c₀ c := by
  induction h with
  | refl => exact logInv_of_begins h₀
  | step _ hok hstep ih => exact ih.next hsid hkey hok hstep

end Log

end Cycles

section Serializable

variable [DecidableEq W] {sid : W → Sid} {key : CString} {c₀ c : Config srv W}

/-- **The cycles of a session are serializable**, in every run in which `zkr_lock_init` does not
act while `lock_watcher_fn` holds `pmutex`. -/
theorem cycles_serializable (hsid : Function.Injective sid) (hkey : ShortKey key)
    (h₀ : c₀.Begins key) (h : Config.Reaches sid (CyclesAlone sid key) c₀ c) :
    Config.Serializable key c₀ c := by
  have hinv := Cycles.logInv_of_reaches hsid hkey h₀ h
  obtain ⟨d, hd⟩ := hinv.log
  exact ⟨⟨cycles c.history, d, .refl _, hd.serial, hd.stored⟩, hinv.written⟩

end Serializable

/-! ### Two runs -/

/-- A worker opens the one session and reads it. -/
def opensAndReads (w : Bool) : List (Label treeServer Bool) :=
  [.start w .psOpen, .finish w, .start w (.psRead {} lockKey)] ++ mainSteps w 34 ++ [.finish w]

/-- The worker writes one byte. -/
def writesByte (w : Bool) (b : UInt8) : List (Label treeServer Bool) :=
  .start w (.psWrite lockKey [b]) :: mainSteps w 5 ++ [.finish w]

/-- The worker writes one byte, and closes the session. -/
def writesAndCloses (w : Bool) (b : UInt8) : List (Label treeServer Bool) :=
  writesByte w b ++ .start w .psClose :: mainSteps w 13 ++ [.finish w]

/-- The second worker waits behind the first one, and has the lock when that has closed. -/
def takingTurns : List (Label treeServer Bool) :=
  opensAndReads false ++ [.start true .psOpen, .finish true, .start true (.psRead {} lockKey)] ++
    mainSteps true 30 ++ writesAndCloses false 1 ++ mainSteps true 40 ++ [.finish true] ++
    writesByte true 2

/-- The second worker is notified while it closes, too late: its `lock_watcher_fn` begins, and it
opens the session anew, behind the first worker. The first worker closes, so the second one has the
lock; but its `lock_watcher_fn` finds nobody to watch, and gives the new node up. So the first
worker gets the lock as well, and both have read the same. -/
def lostUpdate : List (Label treeServer Bool) :=
  takingTurns ++ [.start true .psClose] ++ mainSteps true 8 ++ [.notify true] ++
    watcherSteps true 3 ++ mainSteps true 5 ++ [.finish true, .start true .psOpen, .finish true,
      .start true (.psRead {} lockKey)] ++ mainSteps true 2 ++
    opensAndReads false ++ watcherSteps true 14 ++ writesAndCloses false 3 ++ mainSteps true 40 ++
    watcherSteps true 8 ++ opensAndReads false ++ writesAndCloses false 4 ++ [.finish true] ++
    writesAndCloses true 5

/-- The step is one of workers that use the one session. -/
def checkCycling (c : Config treeServer Bool) : Label treeServer Bool → Bool
  | .start w cb => cb.follows lockKey (c.last w)
  | .main w d => d.fate = .answered && d.lag ≤ (c.world.views w).length &&
    match c.callback w with
    | some (.psRead g _) =>
      (c.world.nodes (sessionPath lockKey)).all fun n => g.expirationTime ≤ n.mtime
    | _ => true
  | .watcher w d => d.fate = .answered && d.lag ≤ (c.world.views w).length
  | _ => true

/-- The step is made while no `lock_watcher_fn` holds `pmutex`. -/
def checkAlone (c : Config treeServer Bool) (l : Label treeServer Bool) : Bool :=
  checkCycling c l && c.world.pmutex false ≠ some .watcher && c.world.pmutex true ≠ some .watcher &&
    ((c.after twoSids l).world.nodes (lockPath lockKey)).all fun d => d.cseq ≤ 2 ^ 31

theorem cycling_of_check {c : Config treeServer Bool} {l : Label treeServer Bool}
    (h : checkCycling c l = true) : Cycling lockKey c l := by
  refine ⟨?_, ?_, ?_⟩
  · rintro w cb rfl
    exact h
  · rintro w d (rfl | rfl)
    · simp only [checkCycling, Bool.and_eq_true, decide_eq_true_eq] at h
      exact ⟨h.1.1, h.1.2⟩
    · simp only [checkCycling, Bool.and_eq_true, decide_eq_true_eq] at h
      exact ⟨h.1, h.2⟩
  · rintro w d g k n rfl hcb hn
    simp only [checkCycling, Bool.and_eq_true, hcb, hn, Option.all_some, decide_eq_true_eq] at h
    exact h.2

theorem cyclesAlone_of_check {c : Config treeServer Bool} {l : Label treeServer Bool}
    (h : checkAlone c l = true) : CyclesAlone twoSids lockKey c l := by
  simp only [checkAlone, Bool.and_eq_true, decide_eq_true_eq] at h
  obtain ⟨⟨⟨hcycling, hfirst⟩, hsecond⟩, hd⟩ := h
  refine ⟨cycling_of_check hcycling, fun w d o _ _ _ => ?_, fun d hd' => ?_⟩
  · cases w
    · exact hfirst
    · exact hsecond
  · rw [hd'] at hd
    simpa using hd

theorem shortKey_lockKey : ShortKey lockKey := ⟨by decide, by decide⟩

theorem twoWorkers_begins : twoWorkers.Begins lockKey where
  toIsInitial := twoWorkers_isInitial
  history := rfl
  parent := ⟨{}, by decide +kernel, rfl⟩
  queue := ⟨_, twoWorkers_isQueue⟩
  absent _ := by decide +kernel

/-- The second worker has read what the first one has written. -/
theorem cycles_serializable_turns :
    cycles (twoWorkers.run twoSids takingTurns).history =
      [⟨false, none, some [1]⟩, ⟨true, some (some [1]), some [2]⟩] ∧
    Config.Serializable lockKey twoWorkers (twoWorkers.run twoSids takingTurns) := by
  have hreach : Config.Reaches twoSids (CyclesAlone twoSids lockKey) twoWorkers
      (twoWorkers.run twoSids takingTurns) :=
    Config.Reaches.refl.run_of_checks (fun _ _ => cyclesAlone_of_check) (by decide +kernel)
  exact ⟨by decide +kernel,
    cycles_serializable twoSids_injective shortKey_lockKey twoWorkers_begins hreach⟩

/-- Two workers have read the same, and one update is lost. -/
theorem cycles_not_serializable :
    ¬ ∀ c : Config treeServer Bool,
      Config.Reaches twoSids (Cycling lockKey) twoWorkers c →
        Config.Serializable lockKey twoWorkers c := by
  intro h
  have hreach : Config.Reaches twoSids (Cycling lockKey) twoWorkers
      (twoWorkers.run twoSids lostUpdate) :=
    Config.Reaches.refl.run_of_checks (fun _ _ => cycling_of_check) (by decide +kernel)
  obtain ⟨order, d, hperm, hserial, -⟩ := (h _ hreach).order
  have hcycles : cycles (twoWorkers.run twoSids lostUpdate).history =
      [⟨false, none, some [1]⟩, ⟨true, some (some [1]), some [2]⟩,
        ⟨false, some (some [2]), some [3]⟩, ⟨false, some (some [3]), some [4]⟩,
        ⟨true, some (some [3]), some [5]⟩] := by decide +kernel
  rw [hcycles] at hperm
  have hleft : ∀ cy ∈ cycles (twoWorkers.run twoSids lostUpdate).history,
      ∀ stored, cy.leaves stored = cy.written.map some := by
    rw [hcycles]
    simp [Cycle.leaves]
  rw [hcycles] at hleft
  exact absurd (hserial.count_read_le hperm hleft (some (some [3]))) (by decide +kernel)

end PhpZookeeper
