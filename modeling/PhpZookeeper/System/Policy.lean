import PhpZookeeper.Session.Effects

/-!
# What every run keeps

A *policy* says which operations the threads of a worker may perform, and what is true of the
nodes, of the records, of replies and of what callbacks return. When the text of each callback
keeps it (`Policy.Sound`), so does every run of the system, whatever the workers do in whatever
order, what the service decides, and which requests fail (`Policy.holds_of_reaches`).
-/

namespace PhpZookeeper

open Theory Prog

/-- What the threads of each worker may do, and what is always true. -/
structure Policy (W : Type) where
  op : W → Op → Prop := fun _ _ => True
  nodes : Nodes → Prop := fun _ => True
  record : W → PhpZookeeperSession → Prop := fun _ _ => True
  reply : Req → Reply → Prop := fun _ _ => True
  /-- What a callback of a worker may return. -/
  outcome : W → Callback → Outcome (Option Bytes) → Prop := fun _ _ _ => True

namespace Policy

variable {W : Type} (P : Policy W)

/-- What is known of the results of a worker's operations. -/
def Known (w : W) : (o : Op) → o.Res → Prop
  | .load, m => P.record w m
  | .zoo r, a => KnownReply r a ∧ P.reply r a
  | _, _ => True

variable {P} in
theorem Known.knownResults {w : W} {o : Op} {r : o.Res} (h : P.Known w o r) :
    KnownResults (P.record w) o r := by
  cases o with
  | load => exact h
  | zoo req => exact h.1
  | _ => trivial

/-- The callbacks that may be called keep the policy, and so does the service. -/
structure Sound (sid : W → Sid) (call : W → Callback → Prop) : Prop where
  effect : ∀ {w th o m}, P.op w o → P.record w m → P.record w (o.effect th m)
  change : ∀ {w r t a t'}, P.op w (.zoo r) → P.nodes t → Answers (sid w) r t a t' → P.nodes t'
  answered : ∀ {session r t a t'}, P.nodes t → Answers session r t a t' →
    P.reply r (a.received r)
  failed : ∀ r (why : Failure), P.reply r { rc := why.status }
  callback : ∀ {w cb}, call w cb → Performs (P.op w) (P.Known w) (cb.code (sid w)) (P.outcome w cb)
  watcher : ∀ w, Performs (P.op w) (P.Known w) (lockWatcherFn (sid w)) fun _ => True

/-- The policy is kept by what the threads share. -/
structure InWorld {srv : Server} (s : World srv W) : Prop where
  nodes : P.nodes s.nodes
  views : ∀ w, ∀ T ∈ s.views w, P.nodes (srv.nodes T)
  record : ∀ w, P.record w (s.memory w)

/-- The policy is kept, and what is left of each thread keeps it. -/
structure Holds {srv : Server} (c : Config srv W) : Prop extends P.InWorld c.world where
  main : ∀ w x, c.main w = some x → Performs (P.op w) (P.Known w) x.2 (P.outcome w x.1)
  watcher : ∀ w p, c.watcher w = some p → Performs (P.op w) (P.Known w) p fun _ => True
  history : ∀ e ∈ c.history, P.outcome e.worker e.callback e.outcome

variable {P} {srv : Server} {sid : W → Sid} {call : W → Callback → Prop}

/-- Workers that have done nothing yet. -/
theorem holds_initial {T : srv.State} (hnodes : P.nodes (srv.nodes T))
    (hrecord : ∀ w, P.record w {}) : P.Holds ({ world := { tree := T } } : Config srv W) where
  nodes := hnodes
  views _ _ hT := nomatch hT
  record := hrecord
  main _ _ h := nomatch h
  watcher _ _ h := nomatch h
  history _ h := nomatch h

variable [DecidableEq W]

section Update

variable {β : Type 1} {f : W → Option β} {Q : W → β → Prop}

theorem forall_update_some (hf : ∀ v y, f v = some y → Q v y) (w : W) {x : β} (hx : Q w x) :
    ∀ v y, Function.update f w (some x) v = some y → Q v y := by
  intro v y hy
  by_cases hv : v = w
  · subst hv
    rw [Function.update_self, Option.some.injEq] at hy
    exact hy ▸ hx
  · rw [Function.update_of_ne hv] at hy
    exact hf v y hy

theorem forall_update_none (hf : ∀ v y, f v = some y → Q v y) (w : W) :
    ∀ v y, Function.update f w none v = some y → Q v y := by
  intro v y hy
  by_cases hv : v = w
  · subst hv
    rw [Function.update_self] at hy
    cases hy
  · rw [Function.update_of_ne hv] at hy
    exact hf v y hy

end Update

/-- A reply is an answer from a state that the worker still sees, or a failure. -/
theorem replied_of_perform {s s' : World srv W} {w : W} {session : Sid} {th : Thread}
    {d : Decision srv} {r : Req} {a : Reply}
    (h : s.perform w session th d (.zoo r) = some (a, s')) :
    (∃ T ∈ s.tree :: s.views w, ∃ b t, Answers session r (srv.nodes T) b t ∧ a = b.received r) ∨
      ∃ why : Failure, a = { rc := why.status } := by
  have hreq : s.request w session d r = (a, s') := Option.some.inj h
  unfold World.request at hreq
  split_ifs at hreq
  · unfold World.look at hreq
    cases hf : d.fate with
    | answered =>
      rw [hf] at hreq
      exact .inl ⟨_, s.seen_mem w d.lag, _, _,
        srv.documented d.choice session r (s.seen w d.lag), (Prod.mk.inj hreq).1.symm⟩
    | failed why applied =>
      rw [hf] at hreq
      exact .inr ⟨why, (Prod.mk.inj hreq).1.symm⟩
  · cases hf : d.fate with
    | answered =>
      rw [hf] at hreq
      exact .inl ⟨s.tree, List.mem_cons_self, _, _, srv.documented d.choice session r s.tree,
        (Prod.mk.inj hreq).1.symm⟩
    | failed why applied =>
      rw [hf] at hreq
      refine .inr ⟨why, ?_⟩
      cases applied <;> exact (Prod.mk.inj hreq).1.symm

namespace Sound

variable (hP : P.Sound sid call)
include hP

/-- An operation that the policy allows keeps it, and its result is as the policy says. -/
theorem perform {s s' : World srv W} {w : W} {th : Thread} {d : Decision srv} {o : Op} {r : o.Res}
    (h : s.perform w (sid w) th d o = some (r, s')) (ho : P.op w o) (hs : P.InWorld s) :
    P.Known w o r ∧ P.InWorld s' := by
  refine ⟨?_, ?_, ?_, fun v => ?_⟩
  · cases o with
    | load =>
      obtain ⟨rfl, -⟩ := Prod.mk.inj (Option.some.inj h)
      exact hs.record w
    | zoo req =>
      refine ⟨knownReply_of_perform h, ?_⟩
      rcases replied_of_perform h with ⟨T, hT, b, t, hans, rfl⟩ | ⟨why, rfl⟩
      · refine hP.answered ?_ hans
        rcases List.mem_cons.mp hT with rfl | hT
        · exact hs.nodes
        · exact hs.views w T hT
      · exact hP.failed req why
    | _ => trivial
  · rcases World.perform_nodes h with ⟨htree, -⟩ | ⟨req, a, rfl, hans, -⟩
    · have hnodes := hs.nodes
      unfold World.nodes at hnodes ⊢
      rwa [htree]
    · exact hP.change ho hs.nodes hans
  · intro v T hT
    rcases World.perform_nodes h with ⟨-, hviews⟩ | ⟨req, a, rfl, -, hviews⟩
    · exact hs.views v T (hviews v hT)
    · rw [hviews] at hT
      dsimp only at hT
      split_ifs at hT
      · cases hT
      · rcases List.mem_cons.mp hT with rfl | hT
        · exact hs.nodes
        · exact hs.views v T hT
  · rw [World.perform_memory h]
    by_cases hv : v = w
    · subst hv
      rw [Function.update_self]
      exact hP.effect ho (hs.record v)
    · rw [Function.update_of_ne hv]
      exact hs.record v

/-- A thread that goes on keeps the policy. -/
theorem advance {α : Type} {s s' : World srv W} {w : W} {th : Thread} {d : Decision srv}
    {p p' : Code α} {Q : α → Prop} (h : s.advance w (sid w) th d p = some (p', s'))
    (hp : Performs (P.op w) (P.Known w) p Q) (hs : P.InWorld s) :
    Performs (P.op w) (P.Known w) p' Q ∧ P.InWorld s' := by
  cases p with
  | ret a => cases h
  | op o k =>
    obtain ⟨⟨r, s₁⟩, hperf, hk⟩ := Option.map_eq_some_iff.mp h
    obtain ⟨rfl, rfl⟩ := Prod.mk.inj hk
    obtain ⟨ho, hrest⟩ := hp.op_inv
    obtain ⟨hr, hkept⟩ := hP.perform hperf ho hs
    exact ⟨hrest r hr, hkept⟩
  | iter body b k =>
    obtain ⟨rfl, rfl⟩ := Prod.mk.inj (Option.some.inj h)
    exact ⟨hp.iter_inv, hs⟩

/-- **One step of the system.** -/
theorem holds_step {c c' : Config srv W} {l : Label srv W} (h : P.Holds c)
    (hcall : ∀ w cb, l = .start w cb → call w cb) (hstep : c.step sid l = some c') :
    P.Holds c' := by
  cases l with
  | start w cb =>
    simp only [Config.step] at hstep
    split at hstep
    · rw [Option.some.injEq] at hstep
      subst hstep
      exact { h with main := forall_update_some h.main w (hP.callback (hcall w cb rfl)) }
    · cases hstep
  | main w d =>
    simp only [Config.step] at hstep
    split at hstep
    · next cb p hmain =>
      obtain ⟨⟨p', s'⟩, hadv, rfl⟩ := Option.map_eq_some_iff.mp hstep
      obtain ⟨hp', hk⟩ := hP.advance hadv (h.main w _ hmain) h.toInWorld
      exact ⟨hk, forall_update_some h.main w hp', h.watcher, h.history⟩
    · cases hstep
  | finish w =>
    simp only [Config.step] at hstep
    split at hstep
    · next cb a hmain =>
      rw [Option.some.injEq] at hstep
      subst hstep
      refine { h with main := forall_update_none h.main w, history := fun e he => ?_ }
      rcases List.mem_cons.mp he with rfl | he
      · cases h.main w _ hmain with
        | ret ha => exact ha
      · exact h.history e he
    · cases hstep
  | sessionEvent w =>
    simp only [Config.step] at hstep
    split at hstep
    · cases hstep
    · rw [Option.some.injEq] at hstep
      subst hstep
      exact { h with }
  | notify w =>
    simp only [Config.step] at hstep
    split at hstep
    · split at hstep
      · cases hstep
      · rw [Option.some.injEq] at hstep
        subst hstep
        exact { h with watcher := forall_update_some h.watcher w (hP.watcher w) }
    · cases hstep
  | watcher w d =>
    simp only [Config.step] at hstep
    split at hstep
    · next p hwatcher =>
      obtain ⟨⟨p', s'⟩, hadv, rfl⟩ := Option.map_eq_some_iff.mp hstep
      obtain ⟨hp', hk⟩ := hP.advance hadv (h.watcher w _ hwatcher) h.toInWorld
      exact ⟨hk, h.main, forall_update_some h.watcher w hp', h.history⟩
    · cases hstep
  | watcherDone w =>
    simp only [Config.step] at hstep
    split at hstep
    · rw [Option.some.injEq] at hstep
      subst hstep
      exact { h with watcher := forall_update_none h.watcher w }
    · cases hstep

end Sound

/-- The callbacks that are called are allowed. -/
def Calls (call : W → Callback → Prop) (_ : Config srv W) (l : Label srv W) : Prop :=
  ∀ w cb, l = .start w cb → call w cb

/-- **Every run keeps the policy.** -/
theorem holds_of_reaches {c₀ c : Config srv W} (hP : P.Sound sid call) (h₀ : P.Holds c₀)
    (h : Config.Reaches sid (Calls call) c₀ c) : P.Holds c := by
  induction h with
  | refl => exact h₀
  | step _ hok hstep ih => exact hP.holds_step ih hok hstep

end Policy

/-- Weaker conditions on the steps. -/
theorem Config.Reaches.mono {srv : Server} {W : Type} [DecidableEq W] {sid : W → Sid}
    {ok ok' : Config srv W → Label srv W → Prop} {c₀ c : Config srv W}
    (h : Config.Reaches sid ok c₀ c) (hok : ∀ c l, ok c l → ok' c l) :
    Config.Reaches sid ok' c₀ c := by
  induction h with
  | refl => exact .refl
  | step _ h hstep ih => exact ih.step (hok _ _ h) hstep

end PhpZookeeper
