import PhpZookeeper.System.Outline

/-!
# What `PS_GC` deletes

`PS_GC` looks at the `mtime` of a session's node with one request and deletes the node with
another. It spares live sessions in the runs in which nobody writes to a node between the two
(`gc_spares`), and in no others: `gc_deletes_written` is a run in which a write comes between.
-/

namespace PhpZookeeper

open Theory Prog Status

variable {srv : Server} {W : Type} [DecidableEq W] {sid : W → Sid}

/-- A node at `p`, if there is one, was last changed before `e`. -/
def Nodes.OlderAt (t : Nodes) (p : CString) (e : ℤ) : Prop := ∀ n, t p = some n → n.mtime < e

/-- The worker `w` runs `PS_GC`, and is about to delete the node at `p`. -/
def Config.Collects (c : Config srv W) (w : W) (g : Globals) (p : CString) : Prop :=
  c.next w = some (.psGc g, some (.zoo (.zooDelete p (-1))))

instance (c : Config srv W) (w : W) (g : Globals) (p : CString) : Decidable (c.Collects w g p) :=
  inferInstanceAs (Decidable (_ = _))

/-- What `PS_GC` is to do: each node it deletes is older than the expiration time. -/
def GcSpares (sid : W → Sid) (c : Config srv W) (l : Label srv W) : Prop :=
  ∀ w d g p c' n, l = .main w d → c.Collects w g p → c.step sid l = some c' →
    c.world.nodes p = some n → c'.world.nodes p = none → n.mtime < g.expirationTime

/-- The steps that leave `PS_GC` alone: it looks at the latest state of the service, and no
request of another thread writes to a node it is about to delete, unless the node is left older
than the expiration time. -/
structure LeavesGc (sid : W → Sid) (c : Config srv W) (l : Label srv W) : Prop where
  current : ∀ w d g o, l = .main w d → c.next w = some (.psGc g, o) → d.lag = 0
  unwritten : ∀ w g p r c', c.Collects w g p → (∀ d, l ≠ .main w d) →
    c.performs l = some (.zoo r) → r.MayTouch p → c.step sid l = some c' →
    c'.world.nodes.OlderAt p g.expirationTime

/-- What `PS_GC` relies on, and what it guarantees of its deletes. -/
def gcContract (w : W) (sid : Sid) (e : ℤ) : Contract Op.Res (World srv W) where
  sem o s r s' := ∃ d, d.lag = 0 ∧ s.perform w sid .main d o = some (r, s')
  rely o s s' := ∀ p, o = some (.zoo (.zooDelete p (-1))) → s.nodes.OlderAt p e →
    s'.nodes.OlderAt p e
  guar o s _ _ := ∀ p, o = .zoo (.zooDelete p (-1)) → s.nodes.OlderAt p e

/-! ### The code of `PS_GC` -/

section Code

variable {w : W} {session : Sid} {e : ℤ}

/-- An operation that deletes nothing. -/
theorem gc_step {α : Type} {r : Req} {k : Reply → Code α} (M : Reply → World srv W → Prop)
    {Q : α → World srv W → Prop} (hr : ∀ p, r ≠ .zooDelete p (-1))
    (hsem : ∀ s a s', (gcContract w session e).sem (.zoo r) s a s' → M a s')
    (hk : ∀ a, Triple (gcContract w session e) (M a) (k a) Q) :
    Triple (gcContract w session e) (fun _ => True) ((zoo r).bind k) Q := by
  refine .step M (K := fun _ => True) (fun _ h => h) (Contract.Stable.true _)
    (fun s a s' _ hs => ⟨fun p hp => ?_, hsem s a s' hs⟩) hk
  exact absurd (by simpa using hp) (hr p)

/-- One child of the parent node: it is deleted when it was found to be old. -/
theorem triple_gcNode (name : CString) :
    Triple (gcContract w session e : Contract Op.Res (World srv W)) (fun _ => True)
      (gcNode e name) fun _ _ => True := by
  refine gc_step (fun a s => a.rc = ZOK → a.stat.mtime < e →
    s.nodes.OlderAt (sessionPath name) e) (by simp) ?_ fun a => ?_
  · intro s a s' hsem hrc hold n hn
    obtain ⟨d, hd, hperf⟩ := hsem
    obtain ⟨b, hans, rfl⟩ := World.answers_of_perform hperf hd (.inl hrc)
    obtain ⟨ht, hcases⟩ := hans.zooExists
    rcases hcases with ⟨-, hb⟩ | ⟨-, hb⟩ | ⟨n', hn', -, -, hstat⟩
    · cases hrc.symm.trans hb
    · cases hrc.symm.trans hb
    · rw [ht, hn', Option.some.injEq] at hn
      rwa [hstat, Znode.stat_mtime, hn] at hold
  · split
    · next hrc =>
      split
      · next hold =>
        refine .step (fun _ _ => True) (K := fun s => s.nodes.OlderAt (sessionPath name) e)
          (fun s hs => hs hrc hold) (fun s s' hr hs => hr _ rfl hs) (fun s a s' hs _ => ?_)
          fun a => .ret fun _ _ => trivial
        refine ⟨fun p hp => ?_, trivial⟩
        obtain rfl : sessionPath name = p := by simpa using hp
        exact hs
      · exact .ret fun _ _ => trivial
    · exact .ret fun _ _ => trivial

/-- `PS_GC` keeps its contract. -/
theorem triple_psGc (g : Globals) :
    Triple (gcContract w session g.expirationTime : Contract Op.Res (World srv W))
      (fun _ => True) ((Callback.psGc g).code session) fun _ _ => True := by
  have hnodes : ∀ names, Triple (gcContract w session g.expirationTime) (fun _ => True)
      (gcNodes g.expirationTime names) fun _ (_ : World srv W) => True := by
    intro names
    induction names with
    | nil => exact .ret fun _ _ => trivial
    | cons name names ih => exact (triple_gcNode name).bind fun _ => ih
  refine Triple.bind (M := fun _ _ => True) ?_ fun _ => .ret fun _ _ => trivial
  refine gc_step (fun _ _ => True) (by simp) (fun _ _ _ _ => trivial) fun a => ?_
  split
  · exact (hnodes a.strings).bind fun _ => .ret fun _ _ => trivial
  · exact .ret fun _ _ => trivial

end Code

/-! ### The system -/

/-- `PS_GC` has a contract; nothing is asked of the other callbacks. -/
def gcOutline (sid : W → Sid) : Outline srv W where
  inv _ := True
  idle _ _ := True
  main w
    | .psGc g => gcContract w (sid w) g.expirationTime
    | _ => .any
  post _ _ _ _ := True
  watcher _ := .any

/-- A node that is old stays so, unless a request writes to it. -/
theorem olderAt_perform {s s' : World srv W} {w : W} {session : Sid} {th : Thread}
    {d : Decision srv} {o : Op} {r : o.Res} {p : CString} {e : ℤ}
    (h : s.perform w session th d o = some (r, s'))
    (hw : ∀ req, o = .zoo req → req.MayTouch p → s'.nodes.OlderAt p e)
    (hold : s.nodes.OlderAt p e) : s'.nodes.OlderAt p e := by
  by_cases htouch : ∃ req, o = .zoo req ∧ req.MayTouch p
  · obtain ⟨req, ho, ht⟩ := htouch
    exact hw req ho ht
  · have hframe := World.perform_frame (q := p) h fun req ho ht => htouch ⟨req, ho, ht⟩
    intro n hn
    rw [hn, Option.map_some, eq_comm, Option.map_eq_some_iff] at hframe
    obtain ⟨n', hn', hc⟩ := hframe
    have hmtime : n'.content.mtime = n.content.mtime := congrArg Znode.mtime hc
    exact hmtime ▸ hold n' hn'

theorem gcOutline_relies {c c' : Config srv W} {l : Label srv W} (hok : LeavesGc sid c l)
    (hstep : c.step sid l = some c') {s' : World srv W} (hs' : c'.world = s') {w : W}
    {th : Thread} {d : Decision srv} {o : Op} {r : o.Res} (ho : c.performs l = some o)
    (h : c.world.perform w (sid w) th d o = some (r, s')) {v : W} (hv : ∀ d, l ≠ .main v d) :
    (gcOutline sid).MainRelies c s' v := by
  unfold Outline.MainRelies
  cases hmain : c.main v with
  | none => exact fun _ => trivial
  | some x =>
    obtain ⟨cb, q⟩ := x
    cases cb with
    | psGc g =>
      intro p hp hold
      refine olderAt_perform h (fun req hreq htouch => ?_) hold
      rw [← hs']
      refine hok.unwritten v g p req c' ?_ hv (by rw [ho, hreq]) htouch hstep
      simp only [Config.Collects, Config.next, hmain, Option.map_some]
      exact congrArg (fun x => some (Callback.psGc g, x)) hp
    | _ => trivial

theorem gcOutline_sound : (gcOutline sid : Outline srv W).Sound sid (LeavesGc sid) where
  invSame _ _ := trivial
  idleSame _ _ := trivial
  mainSame {s s' w cb o} hs := by
    cases cb with
    | psGc g =>
      intro p _ hold
      rwa [hs.nodes]
    | _ => trivial
  watcherSame _ := trivial
  postStable w cb a := fun _ _ _ _ => trivial
  start {c w cb} _ _ _ := by
    cases cb with
    | psGc g =>
      exact (triple_psGc g).safe (fun _ => Contract.Stable.true _) trivial
    | _ => exact safe_any
  finish _ _ _ _ := trivial
  notify _ _ _ := safe_any
  mainOp {c w d cb p o r s'} _ hok hmain hnext hperf := by
    have hperforms : c.performs (.main w d) = some o := by
      simp only [Config.performs, hmain, Option.bind_some, hnext]
    obtain ⟨c', hstep, hs'⟩ := Config.step_main hmain hnext hperf
    refine ⟨?_, fun _ => ⟨trivial, fun v hv => ?_, fun _ _ _ => trivial⟩⟩
    · cases cb with
      | psGc g =>
        refine ⟨d, hok.current w d g (some o) rfl ?_, hperf⟩
        simp only [Config.next, hmain, Option.map_some, hnext]
      | _ => trivial
    · refine gcOutline_relies hok hstep hs' hperforms hperf fun d' hd => hv ?_
      injection hd with h
      exact h.symm
  watcherOp {c w d p o r s'} _ hok hwatcher hnext hperf := by
    have hperforms : c.performs (.watcher w d) = some o := by
      simp only [Config.performs, hwatcher, Option.bind_some, hnext]
    obtain ⟨c', hstep, hs'⟩ := Config.step_watcher hwatcher hnext hperf
    refine ⟨trivial, fun _ => ⟨trivial, fun v => ?_, fun _ _ _ _ => trivial⟩⟩
    exact gcOutline_relies hok hstep hs' hperforms hperf (by simp)

/-- **What garbage collection spares.** In a run in which nobody writes to a node that `PS_GC` is
about to delete, every node it deletes is older than the expiration time. -/
theorem gc_spares {c₀ c : Config srv W} (h₀ : ∀ w, c₀.main w = none)
    (h : Config.Reaches sid (LeavesGc sid) c₀ c) {l : Label srv W} (hok : LeavesGc sid c l) :
    GcSpares sid c l := by
  have hinit : (gcOutline sid).Holds c₀ :=
    ⟨trivial, fun w => by simp [Outline.MainOk, h₀ w, gcOutline], fun w p _ => safe_any⟩
  have hholds := Outline.holds_of_reaches gcOutline_sound hinit h
  intro w d g p c' n hl hcollects hstep hn _
  subst hl
  have hlag := hok.current w d g _ rfl hcollects
  have hsafe := hholds.main w
  simp only [Config.Collects, Config.next, Option.map_eq_some_iff] at hcollects
  obtain ⟨⟨cb, q⟩, hmain, hq⟩ := hcollects
  obtain ⟨rfl, hnext⟩ := Prod.mk.inj hq
  simp only [Outline.MainOk, hmain] at hsafe
  simp only [Config.step, hmain, Option.map_eq_some_iff] at hstep
  obtain ⟨⟨q', s'⟩, hadv, -⟩ := hstep
  rcases hsafe.advance (fun _ => Contract.Stable.true _) hadv with
    ⟨hnone, -, -⟩ | ⟨o, r, ho, hperf, hrest⟩
  · rw [hnext] at hnone
    cases hnone
  · obtain rfl : Op.zoo (.zooDelete p (-1)) = o := by
      rw [hnext] at ho
      exact Option.some.inj ho
    exact (hrest ⟨d, hlag, hperf⟩).1 p rfl n hn

/-! ### Two runs -/

/-- A worker that collects garbage, and one that has read the session `k`, which was last changed at
the time 0. -/
def oldSession : Config treeServer Bool where
  world := {
    tree := [(phpZkParentNode, {}), (sessionPath ['k'], {})]
    memory := fun _ => { path := sessionPath ['k'] } }

/-- Sessions expire that were last changed before 560 s. -/
def gcGlobals : Globals := { globalRequestTime := 2000 }

/-- `PS_GC` has looked at the session, and is about to delete it. -/
def lookedAt : Config treeServer Bool :=
  ((oldSession.after twoSids (.start false (.psGc gcGlobals))).after twoSids
    (mainAt false 2000000)).after twoSids (mainAt false 2000000)

/-- `PS_WRITE` of the other worker. -/
def writeSteps : List (Label treeServer Bool) :=
  .start true (.psWrite ['k'] [1]) :: List.replicate 5 (mainAt true 2000000) ++ [.finish true]

/-- A worker that collects garbage, and one that has read the session `l`; the sessions `k` and `l`
were last changed at the time 0. -/
def oldSessions : Config treeServer Bool where
  world := {
    tree := [(phpZkParentNode, {}), (sessionPath ['l'], {}), (sessionPath ['k'], {})]
    memory := fun _ => { path := sessionPath ['l'] } }

/-- `PS_GC` looks at `k`; then the other worker writes `l`. -/
def besideSteps : List (Label treeServer Bool) :=
  .start false (.psGc gcGlobals) :: List.replicate 2 (mainAt false 2000000) ++
    .start true (.psWrite ['l'] [1]) :: List.replicate 5 (mainAt true 2000000) ++ [.finish true]

/-- The first worker collects, but not `l`, and the second one only reads, and writes to `l`. -/
def checkBeside (c : Config treeServer Bool) (l : Label treeServer Bool) : Bool :=
  ((c.next true).all fun x => decide (x.1 = .psWrite ['l'] [1])) &&
  match l with
  | .main w d => decide (d.lag = 0) && (!w ||
      decide ((c.next false).bind Prod.snd ≠ some (.zoo (.zooDelete (sessionPath ['l']) (-1)))) &&
        (c.performs l).all fun o => decide (o = .zoo (.zooSet (sessionPath ['l']) [1] (-1))) ||
          match o with
          | .zoo r => r.isRead
          | _ => true)
  | .start _ _ | .finish _ => true
  | _ => false

theorem leavesGc_of_check {c : Config treeServer Bool} {l : Label treeServer Bool}
    (h : checkBeside c l = true) : LeavesGc twoSids c l := by
  obtain ⟨hother, hl⟩ := Bool.and_eq_true_iff.mp h
  refine ⟨fun w d g o hmain _ => ?_, fun w g p r c' hcollects hne hperforms htouch _ => ?_⟩
  · subst hmain
    exact of_decide_eq_true (Bool.and_eq_true_iff.mp hl).1
  · have hw : w = false := by
      cases w with
      | false => rfl
      | true =>
        rw [show c.next true = _ from hcollects] at hother
        simp at hother
    subst hw
    cases l with
    | main v d =>
      obtain rfl : v = true := by
        cases v with
        | false => exact absurd rfl (hne d)
        | true => rfl
      simp only [Bool.not_true, Bool.false_or, Bool.and_eq_true, hperforms, Option.all_some,
        decide_eq_true_eq] at hl
      obtain ⟨-, hp, hr⟩ := hl
      rw [show c.next false = _ from hcollects] at hp
      rcases Bool.or_eq_true_iff.mp hr with hset | hread
      · obtain rfl := Op.zoo.inj (of_decide_eq_true hset)
        obtain rfl : p = sessionPath ['l'] := htouch
        exact absurd rfl hp
      · cases r with
        | zooCreate => cases hread
        | zooSet => cases hread
        | zooDelete => cases hread
        | _ => exact htouch.elim
    | watcher => cases hl
    | _ => cases hperforms

/-- Another worker's write to `l` succeeds between `PS_GC`'s look at `k` and its `delete`. -/
theorem gc_spares_beside :
    (oldSessions.run twoSids besideSteps).history = [⟨true, .psWrite ['l'] [1], .success none⟩] ∧
      (oldSessions.run twoSids besideSteps).Collects false gcGlobals (sessionPath ['k']) ∧
      ((oldSessions.run twoSids besideSteps).after twoSids (mainAt false 2000000)).world.nodes
        (sessionPath ['k']) = none ∧
      GcSpares twoSids (oldSessions.run twoSids besideSteps) (mainAt false 2000000) := by
  have hreach : Config.Reaches twoSids (LeavesGc twoSids) oldSessions
      (oldSessions.run twoSids besideSteps) :=
    Config.Reaches.refl.run_of_checks (fun _ _ => leavesGc_of_check) (by decide +kernel)
  exact ⟨by decide +kernel, by decide +kernel, by decide +kernel,
    gc_spares (fun _ => rfl) hreach (leavesGc_of_check (by decide +kernel))⟩

/-- A write that comes between `PS_GC`'s look and its `delete` succeeds, and is thrown away. -/
theorem gc_deletes_written :
    ¬ ∀ c : Config treeServer Bool, Config.Reaches twoSids (fun _ _ => True) oldSession c →
      ∀ l, GcSpares twoSids c l := by
  intro h
  have hreach : Config.Reaches twoSids (fun _ _ => True) oldSession
      (lookedAt.run twoSids writeSteps) :=
    (((Config.Reaches.refl.after trivial).after trivial).after trivial).run (fun _ _ => trivial) _
  have hn : (lookedAt.run twoSids writeSteps).world.nodes (sessionPath ['k']) =
      some { data := some [1], mtime := 2000000, version := 1 } := by decide +kernel
  have hstep := (Option.some_get (x := (lookedAt.run twoSids writeSteps).step twoSids
    (mainAt false 2000000)) (by decide +kernel)).symm
  have hold := h _ hreach _ false { choice := { time := 2000000 } } gcGlobals
    (sessionPath ['k']) _ _
    rfl (by decide +kernel) hstep hn (by decide +kernel)
  exact absurd hold (by decide +kernel)

end PhpZookeeper
