import PhpZookeeper.Theory.Interactive

/-!
# Total correctness

`Total can sem p s Q`: however the operations of `p` turn out, `p` comes to its end, and returns in
`Q`. It goes round no loop for ever, and each of its operations can be performed. What can be
performed (`can`) and what is taken into account of what may come of it (`sem`) are told apart, so
that a run may be followed for as long as something holds of its states.
-/

namespace PhpZookeeper.Theory

open Prog

variable {Op : Type} {Res : Op → Type} {S : Type} {α β γ : Type}

/-- `Total can sem p s Q`: see the module's header. The derivation is finite, and unrolls each
loop. -/
inductive Total (can : Op → S → Prop) (sem : (o : Op) → S → Res o → S → Prop) :
    {α : Type} → Prog Res α → S → (α → S → Prop) → Prop where
  /-- A program that has ended. -/
  | ret {α : Type} {a : α} {s : S} {Q : α → S → Prop} : Q a s → Total can sem (.ret a) s Q
  /-- One operation. -/
  | op {α : Type} {o : Op} {k : Res o → Prog Res α} {s : S} {Q : α → S → Prop} : can o s →
      (∀ r s', sem o s r s' → Total can sem (k r) s' Q) → Total can sem (.op o k) s Q
  /-- One round of a loop. -/
  | iter {α β γ : Type} {body : β → Prog Res (β ⊕ γ)} {b : β} {k : γ → Prog Res α} {s : S}
      {Q : α → S → Prop} : Total can sem ((body b).bind (again body k)) s Q →
      Total can sem (.iter body b k) s Q

namespace Total

variable {can : Op → S → Prop} {sem : (o : Op) → S → Res o → S → Prop} {p : Prog Res α}
  {s s' : S} {Q Q' : α → S → Prop}

/-- A weaker postcondition. -/
theorem mono (h : Total can sem p s Q) (hQ : ∀ a s, Q a s → Q' a s) : Total can sem p s Q' := by
  induction h with
  | ret ha => exact .ret (hQ _ _ ha)
  | op hcan _ ih => exact .op hcan fun r s' hs => ih r s' hs hQ
  | iter _ ih => exact .iter (ih hQ)

/-- `p`, then `f` of its result. -/
theorem bind {f : α → Prog Res β} {M : α → S → Prop} {Q : β → S → Prop} (hp : Total can sem p s M)
    (hf : ∀ a s', M a s' → Total can sem (f a) s' Q) : Total can sem (p.bind f) s Q := by
  induction hp with
  | ret ha => exact hf _ _ ha
  | op hcan _ ih => exact .op hcan fun r s' hs => ih r s' hs hf
  | iter _ ih =>
    refine .iter ?_
    rw [← bind_again_bind]
    exact ih hf

/-- A loop that is left after its first round. -/
theorem loop_once {body : β → Prog Res (β ⊕ γ)} {b : β} {Q : γ → S → Prop}
    (h : Total can sem (body b) s fun x s' => ∃ c, x = .inr c ∧ Q c s') :
    Total can sem (Prog.loop body b) s Q := by
  refine .iter (h.bind ?_)
  rintro x s' ⟨c, rfl, hc⟩
  exact .ret hc

/-- `while (cond) body`, when there is no round. -/
theorem whileLoop_skip {cond : β → Bool} {body : β → Prog Res β} {b : β} {Q : β → S → Prop}
    (hcond : cond b = false) (h : Q b s) : Total can sem (Prog.whileLoop cond body b) s Q := by
  rw [Prog.whileLoop, if_neg (by simp [hcond])]
  exact .ret h

/-- `while (cond) body`, when the first round is the last. -/
theorem whileLoop_once {cond : β → Bool} {body : β → Prog Res β} {b : β} {Q : β → S → Prop}
    (hcond : cond b = true) (h : Total can sem (body b) s fun b' s' => cond b' = false ∧ Q b' s') :
    Total can sem (Prog.whileLoop cond body b) s Q := by
  rw [Prog.whileLoop, if_pos hcond]
  refine loop_once (h.bind fun b' s' hb' => .ret ⟨b', ?_, hb'.2⟩)
  rw [hb'.1, if_neg (by decide)]

/-- **What a program returns satisfies its postcondition.** -/
theorem returns (h : Total can sem p s Q) {a : α} (hr : Returns sem p s a s') : Q a s' := by
  obtain ⟨tr, hr⟩ := hr
  induction hr with
  | ret =>
    cases h with
    | ret ha => exact ha
  | op hs _ ih =>
    cases h with
    | op _ hk => exact ih (hk _ _ hs)
  | iter _ ih =>
    cases h with
    | iter hbody => exact ih hbody

end Total

end PhpZookeeper.Theory
