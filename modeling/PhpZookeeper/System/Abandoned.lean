import PhpZookeeper.System.Keeping
import PhpZookeeper.System.LockOps

/-!
# Places that are left behind

One worker and any number of its requests: `PS_READ` puts its connection into the queue of the
session's lock, and `PS_CLOSE` is to take it out. The connection outlives the request, and so does
a node that has been left in a queue. Nobody takes it out when `PS_READ` runs out of attempts, when
the `delete` of `PS_CLOSE` is not answered, or when `lock_watcher_fn` comes between the
`zkr_lock_unlock` and the `zkr_lock_destroy` of `PS_CLOSE`. In the runs without these the
connection has no node in any queue while no session is locked (`no_abandoned_place`);
`place_abandoned` is a run in which it has one.
-/

namespace PhpZookeeper

open Theory Prog Status

variable {srv : Server}

/-! ### Runs of one worker -/

/-- `Among session ok out c₀ c`: there is a run of the worker from `c₀` to `c` each of whose steps
is `ok`, and between its steps other clients change the nodes as `out` allows. -/
inductive Config.Among (session : Sid) (ok : Config srv Unit → Label srv Unit → Prop)
    (out : Config srv Unit → srv.State → Prop) (c₀ : Config srv Unit) : Config srv Unit → Prop where
  | refl : Among session ok out c₀ c₀
  | step {c c' : Config srv Unit} {l : Label srv Unit} : Among session ok out c₀ c → ok c l →
      c.step (fun _ => session) l = some c' → Among session ok out c₀ c'
  | others {c : Config srv Unit} (tree : srv.State) (touched : Option CString) :
      Among session ok out c₀ c → out c tree → Among session ok out c₀ { c with
        world := c.world.others tree (fun _ => c.world.tree :: c.world.views ()) touched }

/-- Nobody runs, the record is new, and the connection has no node. -/
structure Config.IsFresh (session : Sid) (c : Config srv Unit) : Prop where
  main : c.main () = none
  watcher : c.watcher () = none
  memory : c.world.memory () = {}
  views : c.world.views () = []
  noPlace : NoPlace session c.world.nodes

/-- Other clients make no node with the connection's prefix. -/
def KeepsOut (session : Sid) (c : Config srv Unit) (tree : srv.State) : Prop :=
  NoNewPlace session c.world.nodes (srv.nodes tree)

/-- The steps of requests: a session is read when none is locked, and no data node or lock
directory has the name of a node of the connection. -/
structure RequestStep (session : Sid) (c : Config srv Unit) (l : Label srv Unit) : Prop where
  start : ∀ g key, l = .start () (.psRead g key) → g.sessionLock = true →
    (c.world.memory ()).isLocked = false
  named : ∀ req, c.performs l = some (.zoo req) → ¬ req.Sequence → ∀ key x, OwnName session x →
    ¬ req.MayMake (childOf (lockPath key) x)

/-- The steps in which, moreover, `PS_READ` does not run out of attempts, the operations are
orderly, and `lock_watcher_fn` does not begin between the `zkr_lock_unlock` and the
`zkr_lock_destroy` of `PS_CLOSE`. -/
structure Orderly (session : Sid) (c : Config srv Unit) (l : Label srv Unit) : Prop
    extends RequestStep session c l where
  finish : ∀ cb message, l = .finish () → c.main () ≠ some (cb, .ret (.error message))
  init : ∀ o, c.performs l = some o → o.Inits → c.world.pmutex () ≠ some .watcher
  closes : ∀ d, l = .main () d → c.performs l = some .pthreadMutexLock →
    (c.world.memory ()).isLocked = true → (c.world.memory ()).lock.id = none →
      NoPlace session c.world.nodes
  destroys : c.performs l = some (.store .lockDestroy) → (c.world.memory ()).lock.id = none
  window : ∀ d cb, l = .watcher () d → c.performs l = some .pthreadMutexLock →
    ∀ o, c.next () = some (cb, some o) → ¬ o.EndsLock

/-! ### The system -/

section System

variable {session : Sid} {c c' c₀ : Config srv Unit} {l : Label srv Unit}

/-- Both threads keep their contracts, and the worker is idle between callbacks. -/
def keepOutline (session : Sid) : Outline srv Unit where
  inv := KeepInv session
  idle _ := Idle
  main _ cb := keepContract session cb.role
  post _ _ := Ended
  watcher _ := keepContract session .watcher

theorem Callback.role_thread (cb : Callback) : cb.role.thread = .main := by
  unfold role
  split_ifs <;> rfl

theorem Callback.role_ne (cb : Callback) : cb.role ≠ .watcher := by
  unfold role
  split_ifs <;> decide

theorem Idle.same {s s' : World srv Unit} (hs : World.Same s s') (h : Idle s) : Idle s' := by
  unfold Idle at *
  rwa [hs.memory]

theorem KeepInv.same {s s' : World srv Unit} (hs : World.Same s s') (h : KeepInv session s) :
    KeepInv session s' := by
  obtain ⟨hone, hseen, hrecord⟩ := h
  refine ⟨?_, ?_, ?_⟩
  · rwa [hs.tree, hs.views]
  · rwa [hs.views, hs.nodes]
  · rwa [hs.nodes, hs.memory]

/-- The record is as it was, and others have made no node of the connection's. -/
theorem apart_of_memory {s s' : World srv Unit} (hmem : s'.memory = s.memory)
    (hnodes : NoNewPlace session s.nodes s'.nodes) : Apart session s s' ∧ Steady s s' := by
  refine ⟨⟨?_, by rw [hmem], by rw [hmem], hnodes⟩, by rw [hmem], by rw [hmem]⟩
  unfold World.pmutex
  rw [hmem]

theorem World.Same.apart {s s' : World srv Unit} (hs : World.Same s s') :
    Apart session s s' ∧ Steady s s' :=
  apart_of_memory hs.memory fun key x hx => by rwa [hs.nodes] at hx

theorem keep_rely_of_apart {role : Role} {o : Option Op} {s s' : World srv Unit}
    (h : Apart session s s' ∧ Steady s s') :
    (keepContract session role : Contract Op.Res (World srv Unit)).rely o s s' :=
  ⟨fun _ => h.1, fun _ => ⟨h.2, fun _ _ _ _ => h.1⟩⟩

theorem Ended.steady {out : Outcome (Option Bytes)} {s s' : World srv Unit} (h : Ended out s)
    (hs : Steady s s') : Ended out s' := h.imp_right fun hidle => hidle.steady hs

theorem stable_ended (cb : Callback) (out : Outcome (Option Bytes)) (o : Option Op) :
    (keepContract session cb.role : Contract Op.Res (World srv Unit)).Stable o (Ended out) :=
  stable_steady cb.role_ne (fun _ _ hsteady h => h.steady hsteady) o

/-- A callback that begins. -/
theorem safe_callback {cb : Callback} {s : World srv Unit} (hidle : Idle s)
    (hread : ∀ g key, cb = .psRead g key → g.sessionLock = true →
      (s.memory ()).isLocked = false) :
    Safe (keepContract session cb.role : Contract Op.Res (World srv Unit)) (cb.code session) Ended
      s := by
  by_cases hcb : cb.Locks
  · rw [show cb.role = .locking from if_pos hcb]
    refine (triple_callback_locked hcb).safe (fun out => ?_) ⟨hidle, fun g key hpsRead => ?_⟩
    · rw [← show cb.role = .locking from if_pos hcb]
      exact stable_ended cb out none
    · subst hpsRead
      exact hread g key rfl hcb
  · rw [show cb.role = .plain from if_neg hcb]
    refine ((triple_idle hcb).post fun _ _ h => .inr h).safe (fun out => ?_) hidle
    rw [← show cb.role = .plain from if_neg hcb]
    exact stable_ended cb out none

theorem Orderly.main {d : Decision srv} {o : Op} (hok : Orderly session c (.main () d))
    (ho : c.performs (.main () d) = some o) : OpOrderly session .main o c.world where
  named req hreq := hok.named req (hreq ▸ ho)
  init := hok.init o ho
  closes _ hlock := hok.closes d rfl (hlock ▸ ho)
  destroys hdestroy := hok.destroys (hdestroy ▸ ho)

theorem Orderly.watcher {d : Decision srv} {o : Op} (hok : Orderly session c (.watcher () d))
    (ho : c.performs (.watcher () d) = some o) : OpOrderly session .watcher o c.world where
  named req hreq := hok.named req (hreq ▸ ho)
  init := hok.init o ho
  closes hth := by cases hth
  destroys hdestroy := hok.destroys (hdestroy ▸ ho)

theorem keepOutline_sound : (keepOutline session : Outline srv Unit).Sound (fun _ => session)
    (Orderly session) where
  invSame hs h := h.same hs
  idleSame hs h := h.same hs
  mainSame hs := keep_rely_of_apart hs.apart
  watcherSame hs := keep_rely_of_apart hs.apart
  postStable _ cb out := stable_ended cb out none
  start _ hok hidle := safe_callback hidle fun g key hcb => hok.start g key (hcb ▸ rfl)
  finish {c w cb out} _ hok hmain hended := by
    rcases hended with ⟨message, rfl⟩ | hidle
    · exact absurd hmain (hok.finish cb message rfl)
    · exact hidle
  notify _ _ _ := triple_lockWatcherFn.safe (fun _ => Contract.Stable.true _) trivial
  mainOp {c w d cb p o r s'} h hok hmain hnext hperf := by
    have hperforms : c.performs (.main () d) = some o := by
      simp [Config.performs, hmain, hnext]
    have hthread := cb.role_thread
    refine ⟨⟨h.inv, hthread ▸ hok.main hperforms, d, hthread ▸ hperf⟩, fun hg => ?_⟩
    obtain ⟨hinv, halone, -, -⟩ := hg
    refine ⟨hinv, fun v hv => absurd rfl hv, fun v q _ => ⟨?_, fun hne => absurd rfl hne⟩⟩
    exact halone .watcher (by rw [hthread]; decide)
  watcherOp {c w d p o r s'} h hok hwatcher hnext hperf := by
    have hperforms : c.performs (.watcher () d) = some o := by
      simp [Config.performs, hwatcher, hnext]
    refine ⟨⟨h.inv, hok.watcher hperforms, d, hperf⟩, fun hg => ?_⟩
    obtain ⟨hinv, halone, hsteady, hapart⟩ := hg
    have hsteady := hsteady (by decide)
    refine ⟨hinv, fun v => ?_, fun v hv => absurd rfl hv⟩
    unfold Outline.MainRelies
    cases hmain : c.main v with
    | none => exact fun hidle => hidle.steady hsteady
    | some x =>
      refine ⟨?_, fun _ => ⟨hsteady, fun o' ho' hends => hapart rfl fun hlock => ?_⟩⟩
      · rw [x.1.role_thread]
        exact halone .main (by decide)
      · refine hok.window d x.1 rfl (hlock ▸ hperforms) o' ?_ hends
        simp [Config.next, hmain, Option.mem_def.mp ho']

/-- A change by others, who make no node of the connection's. -/
theorem KeepInv.others {s : World srv Unit} (h : KeepInv session s) {tree : srv.State}
    {touched : Option CString} (hout : NoNewPlace session s.nodes (srv.nodes tree)) :
    KeepInv session (s.others tree (fun _ => s.tree :: s.views ()) touched) := by
  have htree : (s.others tree (fun _ => s.tree :: s.views ()) touched).tree = tree := by
    cases touched <;> rfl
  refine ⟨fun T hT key x y hx hy => ?_, fun T hT key x hx => ?_, ?_⟩
  · rw [htree, World.views_others] at hT
    rcases List.mem_cons.mp hT with rfl | hT
    · exact h.one s.tree List.mem_cons_self key x y (hout key x hx) (hout key y hy)
    · exact h.one T hT key x y hx hy
  · rw [World.nodes_others] at hx
    rw [World.views_others] at hT
    rcases List.mem_cons.mp hT with rfl | hT
    · exact hout key x hx
    · exact h.seen T hT key x (hout key x hx)
  · rw [World.nodes_others, World.memory_others]
    exact h.record.mono hout

/-- While a callback runs that does not use the lock, the worker is idle. -/
def Config.PlainIdle (c : Config srv Unit) : Prop :=
  ∀ cb q, c.main () = some (cb, q) → ¬ cb.Locks → Idle c.world

theorem idle_of_main (h : (keepOutline session).Holds c) {w : Unit} (hmain : c.main w = none) :
    Idle c.world := by
  have hidle := h.main w
  simp only [Outline.MainOk, hmain] at hidle
  exact hidle

/-- A step of the worker. -/
theorem plainIdle_step (h : (keepOutline session).Holds c) (hidle : c.PlainIdle)
    (hok : Orderly session c l) (hstep : c.step (fun _ => session) l = some c') :
    c'.PlainIdle := by
  intro cb' q' hmain' hcb
  cases l with
  | start w cb =>
    simp only [Config.step] at hstep
    cases hmain : c.main w with
    | some x => simp [hmain] at hstep
    | none =>
      rw [hmain, Option.some.injEq] at hstep
      subst hstep
      have hidle : Idle c.world := idle_of_main h hmain
      exact hidle
  | main w d =>
    simp only [Config.step] at hstep
    cases hmain : c.main w with
    | none => simp [hmain] at hstep
    | some x =>
      obtain ⟨cb, q⟩ := x
      rw [hmain] at hstep
      obtain ⟨⟨q₁, s'⟩, hadv, rfl⟩ := Option.map_eq_some_iff.mp hstep
      simp only [Function.update_self, Option.some.injEq, Prod.mk.injEq] at hmain'
      obtain ⟨rfl, -⟩ := hmain'
      have hsafe := h.main w
      simp only [Outline.MainOk, hmain] at hsafe
      rcases hsafe.advance (keepOutline_sound.postStable w cb) hadv with
        ⟨-, rfl, -⟩ | ⟨o, r, hnext, hperf, hrest⟩
      · exact hidle cb q hmain hcb
      · obtain ⟨⟨-, -, hsteady, -⟩, -⟩ :=
          hrest (keepOutline_sound.mainOp h hok hmain hnext hperf).1
        refine (hidle cb q hmain hcb).steady (hsteady ?_)
        rw [show cb.role = .plain from if_neg hcb]
        decide
  | watcher w d =>
    simp only [Config.step] at hstep
    cases hwatcher : c.watcher w with
    | none => simp [hwatcher] at hstep
    | some p =>
      rw [hwatcher] at hstep
      obtain ⟨⟨p₁, s'⟩, hadv, rfl⟩ := Option.map_eq_some_iff.mp hstep
      have hold := hidle cb' q' hmain' hcb
      rcases (h.watcher w p hwatcher).advance (fun _ => Contract.Stable.true _) hadv with
        ⟨-, rfl, -⟩ | ⟨o, r, hnext, hperf, hrest⟩
      · exact hold
      · obtain ⟨⟨-, -, hsteady, -⟩, -⟩ :=
          hrest (keepOutline_sound.watcherOp h hok hwatcher hnext hperf).1
        exact hold.steady (hsteady (by decide))
  | finish w =>
    simp only [Config.step] at hstep
    split at hstep
    · obtain rfl := Option.some.inj hstep
      simp at hmain'
    · cases hstep
  | sessionEvent w =>
    simp only [Config.step] at hstep
    split at hstep
    · cases hstep
    · obtain rfl := Option.some.inj hstep
      exact hidle cb' q' hmain' hcb
  | notify w =>
    simp only [Config.step] at hstep
    split at hstep
    · split_ifs at hstep
      obtain rfl := Option.some.inj hstep
      exact hidle cb' q' hmain' hcb
    · cases hstep
  | watcherDone w =>
    simp only [Config.step] at hstep
    split at hstep
    · obtain rfl := Option.some.inj hstep
      exact hidle cb' q' hmain' hcb
    · cases hstep

/-- **Every run** keeps the contracts, and the worker idle while no callback uses the lock. -/
theorem holds_of_among (h₀ : c₀.IsFresh session)
    (h : Config.Among session (Orderly session) (KeepsOut session) c₀ c) :
    (keepOutline session).Holds c ∧ c.PlainIdle := by
  induction h with
  | refl =>
    refine ⟨⟨⟨fun T hT key x y hx _ => ?_, fun T hT => ?_, ?_⟩, fun w => ?_, fun w q hq => ?_⟩,
      fun cb q hq => ?_⟩
    · rw [h₀.views, List.mem_singleton] at hT
      subst hT
      exact absurd hx (h₀.noPlace key x)
    · simp [h₀.views] at hT
    · rw [h₀.memory]
      exact ⟨fun p hp => (by cases hp), fun key x hx => absurd hx (h₀.noPlace key x), fun _ => rfl⟩
    · simp only [Outline.MainOk, show c₀.main w = none from h₀.main]
      intro _
      rw [h₀.memory]
    · rw [show c₀.watcher w = none from h₀.watcher] at hq
      cases hq
    · rw [h₀.main] at hq
      cases hq
  | step _ hok hstep ih =>
    exact ⟨keepOutline_sound.holds_step ih.1 hok hstep, plainIdle_step ih.1 ih.2 hok hstep⟩
  | @others c tree touched _ hout ih =>
    obtain ⟨hholds, hidle⟩ := ih
    have hkeeps : Apart session c.world (c.world.others tree
        (fun _ => c.world.tree :: c.world.views ()) touched) ∧ Steady c.world (c.world.others tree
          (fun _ => c.world.tree :: c.world.views ()) touched) :=
      apart_of_memory (World.memory_others ..) fun key x hx => by
        rw [World.nodes_others] at hx
        exact hout key x hx
    refine ⟨⟨hholds.inv.others hout, fun w => ?_, fun w q hq => ?_⟩, fun cb q hq hcb => ?_⟩
    · refine (hholds.main w).rely ?_ rfl
      unfold Outline.MainRelies
      cases c.main w with
      | none => exact fun h => h.steady hkeeps.2
      | some x => exact keep_rely_of_apart hkeeps
    · exact (hholds.watcher w q hq).rely (keep_rely_of_apart hkeeps)
    · exact (hidle cb q hq hcb).steady hkeeps.2

/-- No callback runs that uses the lock, and no session is locked. -/
structure Config.Outside (c : Config srv Unit) : Prop where
  callback : ∀ cb q, c.main () = some (cb, q) → ¬ cb.Locks
  isLocked : (c.world.memory ()).isLocked = false

/-- **No place is left behind**: whenever the worker is not inside a locked request, its connection
has no node in any queue, and the worker does not take itself for the owner of a lock. -/
theorem no_abandoned_place (h₀ : c₀.IsFresh session)
    (h : Config.Among session (Orderly session) (KeepsOut session) c₀ c) (hc : c.Outside) :
    NoPlace session c.world.nodes ∧ (c.world.memory ()).lock.isowner = false := by
  obtain ⟨hholds, hplain⟩ := holds_of_among h₀ h
  have hidle : Idle c.world := by
    cases hmain : c.main () with
    | none => exact idle_of_main hholds hmain
    | some x => exact hplain x.1 x.2 hmain (hc.callback x.1 x.2 hmain)
  have hpath := hidle hc.isLocked
  refine ⟨fun key x hx => ?_, ?_⟩
  · have hsome := (hholds.inv.record.only key x hx).1
    rw [hpath] at hsome
    cases hsome
  · simp [ZkrLockMutex.isowner, hholds.inv.record.closed hpath]

end System

/-! ### Two runs -/

/-- A run in which nobody else acts. -/
theorem Config.Among.of_reaches {session : Sid} {ok : Config srv Unit → Label srv Unit → Prop}
    {out : Config srv Unit → srv.State → Prop} {c₀ c : Config srv Unit}
    (h : Config.Reaches (fun _ => session) ok c₀ c) : Config.Among session ok out c₀ c := by
  induction h with
  | refl => exact .refl
  | step _ hok hstep ih => exact ih.step hok hstep

/-- The path is not that of a node of the session 1 in a queue. -/
def notPlace (q : CString) : Bool :=
  parentOf q = [] || parentOf q = phpZkParentNode ||
    !((getName q).any fun x => (lockPrefix 1).isPrefixOf x)

theorem ne_of_notPlace {q : CString} (h : notPlace q = true) (key : CString) {x : CString}
    (hx : OwnName 1 x) : q ≠ childOf (lockPath key) x := by
  rintro rfl
  have hname : getName (childOf (lockPath key) x) = some x := afterLast_append hx.2
  have hpre : (lockPrefix 1).isPrefixOf x = true := List.isPrefixOf_iff_prefix.mpr hx.1
  simp [notPlace, parentOf_childOf _ hx.2, lockPath_ne_nil, lockPath_ne_parentNode, hname,
    hpre] at h

/-- The key of a session. -/
def queuedKey : CString := ['k']

/-- A worker that has done nothing yet. -/
def oneWorker (tree : TreeState) : Config treeServer Unit where
  world := { tree := tree }

theorem oneWorker_isFresh {tree : TreeState} (h : (tree.all fun e => notPlace e.1) = true) :
    (oneWorker tree).IsFresh 1 := by
  refine ⟨rfl, rfl, rfl, rfl, fun key x hx => ?_⟩
  obtain ⟨n, hn⟩ := (tree.get_ne_none_iff _).mp hx.2
  exact ne_of_notPlace (List.all_eq_true.mp h _ hn) key hx.1 rfl

/-- A callback of the worker, from its start to its return. -/
def oneCallback (cb : Callback) : List (Label treeServer Unit) :=
  .start () cb :: List.replicate 60 (.main () { choice := {} }) ++ [.finish ()]

/-- `PS_READ` makes one attempt at the lock. -/
def oneAttempt : Globals := { sessLockWait := 1000000, maxExecutionTime := 1 }

/-- The parent node, and the lock directory with the node of another client. -/
def queuedTree : TreeState :=
  [(phpZkParentNode, {}), (lockPath queuedKey, { cseq := 1 }),
    (childOf (lockPath queuedKey) (lockName 0 0), { ephemeralOwner := some 0 })]

/-- The step is one of a request. -/
def checkRequest (c : Config treeServer Unit) (l : Label treeServer Unit) : Bool :=
  (match l with
    | .start _ (.psRead _ _) => !(c.world.memory ()).isLocked
    | _ => true) &&
  match c.performs l with
  | some (.zoo (.zooCreate q _ _ flags _)) => flags.sequence || notPlace q
  | _ => true

/-- The step is an orderly one of the main thread. -/
def checkOrderly (c : Config treeServer Unit) (l : Label treeServer Unit) : Bool :=
  checkRequest c l && c.world.pmutex () ≠ some .watcher &&
    (match l with
      | .finish _ => match c.main () with
        | some (_, .ret (.error _)) => false
        | _ => true
      | .watcher _ _ => false
      | _ => true) &&
    match c.performs l with
    | some .pthreadMutexLock =>
      !(c.world.memory ()).isLocked || (c.world.memory ()).lock.id ≠ none
    | some (.store .lockDestroy) => (c.world.memory ()).lock.id = none
    | _ => true

theorem requestStep_of_check {c : Config treeServer Unit} {l : Label treeServer Unit}
    (h : checkRequest c l = true) : RequestStep 1 c l := by
  obtain ⟨hl, hreq⟩ := Bool.and_eq_true_iff.mp h
  refine ⟨fun g key hstart _ => ?_, fun req hperf hseq key x hx hmake => ?_⟩
  · subst hstart
    simpa using hl
  · rw [hperf] at hreq
    cases req with
    | zooCreate q value acl flags len =>
      have hfalse : flags.sequence = false := Bool.eq_false_iff.mpr hseq
      simp only [Req.MayMake, hfalse, Bool.false_eq_true, if_false] at hmake
      exact ne_of_notPlace (by simpa [hfalse] using hreq) key hx hmake.symm
    | _ => exact hmake

theorem orderly_of_check {c : Config treeServer Unit} {l : Label treeServer Unit}
    (h : checkOrderly c l = true) : Orderly 1 c l := by
  simp only [checkOrderly, Bool.and_eq_true, decide_eq_true_eq] at h
  obtain ⟨⟨⟨hrequest, hfree⟩, hl⟩, hop⟩ := h
  refine ⟨requestStep_of_check hrequest, fun cb message hfinish hmain => ?_, fun _ _ _ => hfree,
    fun d hd hlock hlocked hid => ?_, fun hdestroy => ?_, fun d cb hd => ?_⟩
  · subst hfinish
    simp [hmain] at hl
  · simp [hlock, hlocked, hid] at hop
  · simpa [hdestroy] using hop
  · subst hd
    simp at hl

/-- A request, from `PS_READ` to `PS_CLOSE`. -/
theorem no_abandoned_place_closed :
    NoPlace 1 ((oneWorker [(phpZkParentNode, {})]).run (fun _ => 1)
      (oneCallback (.psRead {} queuedKey) ++ oneCallback .psClose)).world.nodes ∧
    (((oneWorker [(phpZkParentNode, {})]).run (fun _ => 1)
      (oneCallback (.psRead {} queuedKey) ++ oneCallback .psClose)).world.memory ()).lock.isowner =
        false := by
  have hreach : Config.Among 1 (Orderly 1) (KeepsOut 1) (oneWorker [(phpZkParentNode, {})])
      ((oneWorker [(phpZkParentNode, {})]).run (fun _ => 1)
        (oneCallback (.psRead {} queuedKey) ++ oneCallback .psClose)) :=
    .of_reaches (Config.Reaches.refl.run_of_checks (fun _ _ => orderly_of_check)
      (by decide +kernel))
  refine no_abandoned_place (oneWorker_isFresh (by decide +kernel)) hreach ⟨fun cb q hq => ?_, ?_⟩
  · have hnone : (((oneWorker [(phpZkParentNode, {})]).run (fun _ => 1)
        (oneCallback (.psRead {} queuedKey) ++ oneCallback .psClose)).main ()).isNone = true := by
      decide +kernel
    rw [hq] at hnone
    cases hnone
  · decide +kernel

/-- `PS_READ` gives up, and its node stays in the queue. -/
theorem place_abandoned :
    ¬ ∀ c : Config treeServer Unit,
      Config.Among 1 (RequestStep 1) (KeepsOut 1) (oneWorker queuedTree) c → c.Outside →
        NoPlace 1 c.world.nodes := by
  intro h
  have hreach : Config.Among 1 (RequestStep 1) (KeepsOut 1) (oneWorker queuedTree)
      ((oneWorker queuedTree).run (fun _ => 1) (oneCallback (.psRead oneAttempt queuedKey))) :=
    .of_reaches (Config.Reaches.refl.run_of_checks (fun _ _ => requestStep_of_check)
      (by decide +kernel))
  refine h _ hreach ⟨fun cb q hq => ?_, by decide +kernel⟩ queuedKey (lockName 1 1)
    ⟨ownName_lockName 1 1, by decide +kernel⟩
  have hnone : (((oneWorker queuedTree).run (fun _ => 1)
      (oneCallback (.psRead oneAttempt queuedKey))).main ()).isNone = true := by decide +kernel
  rw [hq] at hnone
  cases hnone

end PhpZookeeper
