import PhpZookeeper.Theory.Interactive
import Mathlib.Tactic.SplitIfs
import Mathlib.Data.Nat.Init

/-!
# How a run ends

A program that runs alone may end with a value, or before an operation that cannot be performed
and so for good. `Ends` is the semantics that tells which; `EndsWithin` says that a program ends
one way or the other, at a bounded cost, and has a rule for each way to build a program.
-/

namespace PhpZookeeper.Theory

open Prog

variable {Op : Type} {Res : Op → Type} {S : Type} {α β γ : Type}

/-- `Ends sem p s x s'`: started in `s`, `p` ends in `s'`; with the value `a` when `x` is `some a`,
before an operation that cannot be performed when it is `none`. -/
inductive Ends (sem : (o : Op) → S → Res o → S → Prop) :
    {α : Type} → Prog Res α → S → Option α → S → Prop where
  /-- The program has returned. -/
  | ret {α : Type} {a : α} {s : S} : Ends sem (.ret a) s (some a) s
  /-- The next operation cannot be performed. -/
  | stuck {α : Type} {o : Op} {k : Res o → Prog Res α} {s : S} : (∀ r s', ¬ sem o s r s') →
      Ends sem (.op o k) s none s
  /-- One operation, then the rest. -/
  | op {α : Type} {o : Op} {k : Res o → Prog Res α} {s s₁ s' : S} {r : Res o} {x : Option α} :
      sem o s r s₁ → Ends sem (k r) s₁ x s' → Ends sem (.op o k) s x s'
  /-- One round, then what follows it. -/
  | iter {α β γ : Type} {body : β → Prog Res (β ⊕ γ)} {b : β} {k : γ → Prog Res α} {s s' : S}
      {x : Option α} : Ends sem ((body b).bind (again body k)) s x s' →
      Ends sem (.iter body b k) s x s'

variable {sem : (o : Op) → S → Res o → S → Prop} {p : Prog Res α} {f : α → Prog Res β}
  {s s₁ s' : S}

namespace Ends

/-- A program that ends with a value has returned it. -/
theorem returns {a : α} (h : Ends sem p s (some a) s') : Returns sem p s a s' := by
  generalize hx : some a = x at h
  induction h with
  | ret =>
    obtain rfl := Option.some.inj hx
    exact ⟨_, .ret⟩
  | stuck _ => cases hx
  | op hs _ ih =>
    obtain ⟨tr, hrun⟩ := ih hx
    exact ⟨_, .op hs hrun⟩
  | iter _ ih =>
    obtain ⟨tr, hrun⟩ := ih hx
    exact ⟨_, .iter hrun⟩

theorem of_returns {a : α} (h : Returns sem p s a s') : Ends sem p s (some a) s' := by
  obtain ⟨tr, h⟩ := h
  induction h with
  | ret => exact .ret
  | op hs _ ih => exact .op hs ih
  | iter _ ih => exact .iter ih

/-- When an operation has at most one outcome, a program ends in at most one way. -/
theorem det (hdet : ∀ o s r r' s₁ s₂, sem o s r s₁ → sem o s r' s₂ → r = r' ∧ s₁ = s₂)
    {x y : Option α} {s'' : S} (h : Ends sem p s x s') (h' : Ends sem p s y s'') :
    x = y ∧ s' = s'' := by
  induction h with
  | ret =>
    cases h' with
    | ret => exact ⟨rfl, rfl⟩
  | stuck hno =>
    cases h' with
    | stuck _ => exact ⟨rfl, rfl⟩
    | op hs _ => exact absurd hs (hno _ _)
  | op hs _ ih =>
    cases h' with
    | stuck hno => exact absurd hs (hno _ _)
    | op hs' h' =>
      obtain ⟨rfl, rfl⟩ := hdet _ _ _ _ _ _ hs hs'
      exact ih h'
  | iter _ ih =>
    cases h' with
    | iter h' => exact ih h'

/-- A program that ends, and then the rest. -/
theorem bind_some {a : α} {x : Option β} (hp : Ends sem p s (some a) s₁)
    (hf : Ends sem (f a) s₁ x s') : Ends sem (p.bind f) s x s' := by
  generalize hy : some a = y at hp
  induction hp with
  | ret =>
    obtain rfl := Option.some.inj hy
    exact hf
  | stuck _ => cases hy
  | op hs _ ih => exact .op hs (ih hf hy)
  | iter _ ih =>
    refine .iter ?_
    rw [← bind_again_bind]
    exact ih hf hy

/-- A program that is stuck, before the rest. -/
theorem bind_none (hp : Ends sem p s none s') : Ends sem (p.bind f) s none s' := by
  generalize hy : none = y at hp
  induction hp with
  | ret => cases hy
  | stuck hno => exact .stuck hno
  | op hs _ ih => exact .op hs (ih hy)
  | iter _ ih =>
    refine .iter ?_
    rw [← bind_again_bind]
    exact ih hy

theorem ret_inv {a : α} {x : Option α} (h : Ends sem (.ret a) s x s') : x = some a ∧ s' = s := by
  cases h
  exact ⟨rfl, rfl⟩

/-- The next operation has one outcome. -/
theorem op_inv {o : Op} {k : Res o → Prog Res α} {r : Res o} {x : Option α}
    (h : Ends sem (.op o k) s x s') (hs : sem o s r s₁)
    (honly : ∀ r' s₂, sem o s r' s₂ → r' = r ∧ s₂ = s₁) : Ends sem (k r) s₁ x s' := by
  cases h with
  | stuck hno => exact absurd hs (hno _ _)
  | op hs' h =>
    obtain ⟨rfl, rfl⟩ := honly _ _ hs'
    exact h

/-- The next operation has none. -/
theorem stuck_inv {o : Op} {k : Res o → Prog Res α} {x : Option α} (h : Ends sem (.op o k) s x s')
    (hno : ∀ r s₁, ¬ sem o s r s₁) : x = none ∧ s' = s := by
  cases h with
  | stuck _ => exact ⟨rfl, rfl⟩
  | op hs _ => exact absurd hs (hno _ _)

end Ends

/-! ### Ending at a bounded cost -/

/-- From `s`, `p` ends at a cost of at most `K`: with a value and in a state that satisfy `Q`, or
stuck in a state that satisfies `Bad`. -/
def EndsWithin (sem : (o : Op) → S → Res o → S → Prop) (cost : S → ℕ) (Bad : S → Prop)
    (p : Prog Res α) (s : S) (K : ℕ) (Q : α → S → Prop) : Prop :=
  ∃ x s', Ends sem p s x s' ∧ cost s' ≤ cost s + K ∧ x.elim (Bad s') fun a => Q a s'

namespace EndsWithin

variable {cost : S → ℕ} {Bad : S → Prop} {K K' : ℕ} {Q Q' : α → S → Prop}

theorem ret {a : α} (h : Q a s) : EndsWithin sem cost Bad (.ret a) s K Q :=
  ⟨some a, s, .ret, Nat.le_add_right _ _, h⟩

/-- The next operation cannot be performed. -/
theorem stuck {o : Op} {k : Res o → Prog Res α} (hno : ∀ r s', ¬ sem o s r s') (h : Bad s) :
    EndsWithin sem cost Bad (.op o k) s K Q :=
  ⟨none, s, .stuck hno, Nat.le_add_right _ _, h⟩

/-- One operation, and what follows it. -/
theorem op {o : Op} {k : Res o → Prog Res α} {r : Res o} {c : ℕ} (hs : sem o s r s₁)
    (hc : cost s₁ ≤ cost s + c) (h : EndsWithin sem cost Bad (k r) s₁ K Q) :
    EndsWithin sem cost Bad (.op o k) s (c + K) Q := by
  obtain ⟨x, s', hends, hcost, hx⟩ := h
  exact ⟨x, s', .op hs hends, by omega, hx⟩

/-- One operation without cost, and what follows it. -/
theorem free {o : Op} {k : Res o → Prog Res α} {r : Res o} (hs : sem o s r s₁)
    (hc : cost s₁ = cost s) (h : EndsWithin sem cost Bad (k r) s₁ K Q) :
    EndsWithin sem cost Bad (.op o k) s K Q := by
  obtain ⟨x, s', hends, hcost, hx⟩ := h
  exact ⟨x, s', .op hs hends, by omega, hx⟩

theorem mono (h : EndsWithin sem cost Bad p s K Q) (hK : K ≤ K') (hQ : ∀ a s, Q a s → Q' a s) :
    EndsWithin sem cost Bad p s K' Q' := by
  obtain ⟨x, s', hends, hcost, hx⟩ := h
  refine ⟨x, s', hends, by omega, ?_⟩
  cases x with
  | none => exact hx
  | some a => exact hQ a s' hx

/-- `p`, then `f` of its value. -/
theorem bind {M : α → S → Prop} {Q : β → S → Prop} (hp : EndsWithin sem cost Bad p s K M)
    (hf : ∀ a s, M a s → EndsWithin sem cost Bad (f a) s K' Q) :
    EndsWithin sem cost Bad (p.bind f) s (K + K') Q := by
  obtain ⟨x, s₁, hends, hcost, hx⟩ := hp
  cases x with
  | none => exact ⟨none, s₁, hends.bind_none, by omega, hx⟩
  | some a =>
    obtain ⟨y, s', hends', hcost', hy⟩ := hf a s₁ hx
    exact ⟨y, s', hends.bind_some hends', by omega, hy⟩

/-- `p`, then `f` of its value, without cost. -/
theorem bind_free {M : α → S → Prop} {Q : β → S → Prop} (hp : EndsWithin sem cost Bad p s 0 M)
    (hf : ∀ a s, M a s → EndsWithin sem cost Bad (f a) s 0 Q) :
    EndsWithin sem cost Bad (p.bind f) s 0 Q :=
  hp.bind hf

/-- A loop that is left after its first round. -/
theorem loop_once {body : β → Prog Res (β ⊕ γ)} {b : β} {Q : γ → S → Prop}
    (h : EndsWithin sem cost Bad (body b) s K fun x s => ∃ c, x = .inr c ∧ Q c s) :
    EndsWithin sem cost Bad (Prog.loop body b) s K Q := by
  have hbind : EndsWithin sem cost Bad ((body b).bind (again body .ret)) s (K + 0) Q :=
    h.bind fun x s hx => by
      obtain ⟨c, rfl, hc⟩ := hx
      exact ret hc
  obtain ⟨x, s', hends, hcost, hx⟩ := hbind
  exact ⟨x, s', .iter hends, hcost, hx⟩

/-- A loop with the invariant `I` and the outcome `J`: a round costs at most `c`, and lowers the
rank `m`. -/
theorem loop {body : β → Prog Res (β ⊕ γ)} {I : β → S → Prop} {J : γ → S → Prop} {c : ℕ}
    (m : β → ℕ)
    (hbody : ∀ b s, I b s → EndsWithin sem cost Bad (body b) s c fun x s' =>
      x.elim (fun b' => I b' s' ∧ m b' < m b) fun y => J y s')
    (hpos : ∀ b s, I b s → 0 < m b) {b : β} (hI : I b s) :
    EndsWithin sem cost Bad (Prog.loop body b) s (c * m b) J := by
  induction hm : m b using Nat.strong_induction_on generalizing b s with
  | _ n ih =>
    subst hm
    have hround : EndsWithin sem cost Bad ((body b).bind (again body .ret)) s
        (c + c * (m b - 1)) J := (hbody b s hI).bind fun x s₁ hx => by
      cases x with
      | inl b' =>
        refine (ih (m b') hx.2 hx.1 rfl).mono (Nat.mul_le_mul_left c ?_) fun _ _ h => h
        exact Nat.le_sub_one_of_lt hx.2
      | inr y => exact ret hx
    obtain ⟨x, s', hends, hcost, hx⟩ := hround
    refine ⟨x, s', .iter hends, ?_, hx⟩
    rwa [Nat.add_comm c, ← Nat.mul_succ, Nat.succ_eq_add_one, Nat.sub_add_cancel (hpos b s hI)]
      at hcost

/-- `while (cond) body`: a round costs at most `c`, and lowers the rank `m` while there is to be
another. -/
theorem whileLoop {cond : β → Bool} {body : β → Prog Res β} {I : β → S → Prop} {c : ℕ} (m : β → ℕ)
    (hpos : ∀ b, cond b = true → 0 < m b)
    (hbody : ∀ b s, cond b = true → I b s → EndsWithin sem cost Bad (body b) s c fun b' s' =>
      I b' s' ∧ (cond b' = true → m b' < m b)) {b : β} (hI : I b s) :
    EndsWithin sem cost Bad (Prog.whileLoop cond body b) s (c * m b) fun b' s' =>
      I b' s' ∧ cond b' = false := by
  unfold Prog.whileLoop
  split
  · next hcond =>
    refine loop (I := fun b s => cond b = true ∧ I b s) m (fun b s hb => ?_)
      (fun b s hb => hpos b hb.1) ⟨hcond, hI⟩
    refine mono (K := c + 0) ((hbody b s hb.1 hb.2).bind fun b' s' hb' => ret ?_) (Nat.le_refl _)
      fun _ _ h => h
    split
    · next hcond' => exact ⟨⟨hcond', hb'.1⟩, hb'.2 hcond'⟩
    · next hcond' => exact ⟨hb'.1, by simpa using hcond'⟩
  · next hcond => exact ret ⟨hI, by simpa using hcond⟩

/-- `while (cond) body`, without cost: a round lowers the rank `m` while there is to be another. -/
theorem whileLoop_free {cond : β → Bool} {body : β → Prog Res β} {I : β → S → Prop} (m : β → ℕ)
    (hpos : ∀ b, cond b = true → 0 < m b)
    (hbody : ∀ b s, cond b = true → I b s → EndsWithin sem cost Bad (body b) s 0 fun b' s' =>
      I b' s' ∧ (cond b' = true → m b' < m b)) {b : β} (hI : I b s) :
    EndsWithin sem cost Bad (Prog.whileLoop cond body b) s 0 fun b' s' =>
      I b' s' ∧ cond b' = false :=
  (whileLoop m hpos hbody hI).mono (by simp) fun _ _ h => h

end EndsWithin

/-! ### Evaluation -/

/-- How a program ends whose operations are evaluated by `perform`, if it takes at most `n`
steps. -/
def execEnds (perform : (o : Op) → S → Option (Res o × S)) :
    ℕ → Prog Res α → S → Option (Option α × S)
  | _, .ret a, s => some (some a, s)
  | 0, _, _ => none
  | n + 1, .op o k, s =>
    match perform o s with
    | some (r, s') => execEnds perform n (k r) s'
    | none => some (none, s)
  | n + 1, .iter body b k, s => execEnds perform n ((body b).bind (again body k)) s

theorem ends_of_exec {perform : (o : Op) → S → Option (Res o × S)}
    (hp : ∀ o s r s', perform o s = some (r, s') ↔ sem o s r s') {n : ℕ} {x : Option α}
    (h : execEnds perform n p s = some (x, s')) : Ends sem p s x s' := by
  induction n generalizing p s with
  | zero =>
    cases p with
    | ret a =>
      obtain ⟨rfl, rfl⟩ := Prod.mk.inj (Option.some.inj h)
      exact .ret
    | op o k => simp [execEnds] at h
    | iter body b k => simp [execEnds] at h
  | succ n ih =>
    cases p with
    | ret a =>
      obtain ⟨rfl, rfl⟩ := Prod.mk.inj (Option.some.inj h)
      exact .ret
    | op o k =>
      simp only [execEnds] at h
      split at h
      · next r s₁ heq => exact .op ((hp _ _ _ _).mp heq) (ih h)
      · next heq =>
        obtain ⟨rfl, rfl⟩ := Prod.mk.inj (Option.some.inj h)
        refine .stuck fun r s' hs => ?_
        rw [(hp _ _ _ _).mpr hs] at heq
        cases heq
    | iter body b k => exact .iter (ih h)

end PhpZookeeper.Theory
