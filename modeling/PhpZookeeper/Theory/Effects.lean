import PhpZookeeper.Theory.RelyGuarantee

/-!
# What a program does to its world

`Performs pre post p Q` bounds the effects of a program without a word about states: `p`
performs only operations that satisfy `pre`, as long as what they give satisfies `post`, and
returns only values that satisfy `Q`. It is a matter of the program's text, and is proved once
for a program; each invariant that the operations keep is then an invariant of its runs
(`Performs.returns`), of its interleavings (`Performs.triple`) and of what is left of it after a
step (`Performs.op_inv`, `Performs.iter_inv`).
-/

namespace PhpZookeeper.Theory

open Prog

variable {Op : Type} {Res : Op → Type} {α β γ : Type}

/-- `Performs pre post p Q`: see the module's header. -/
inductive Performs (pre : Op → Prop) (post : (o : Op) → Res o → Prop) :
    {α : Type} → Prog Res α → (α → Prop) → Prop where
  /-- A program that has ended. -/
  | ret {α : Type} {a : α} {Q : α → Prop} : Q a → Performs pre post (.ret a) Q
  /-- One operation. -/
  | op {α : Type} {o : Op} {k : Res o → Prog Res α} {Q : α → Prop} : pre o →
      (∀ r, post o r → Performs pre post (k r) Q) → Performs pre post (.op o k) Q
  /-- A loop: `I` holds of the loop variables, and `J` of its outcome. -/
  | iter {α β γ : Type} {body : β → Prog Res (β ⊕ γ)} {b : β} {k : γ → Prog Res α} {Q : α → Prop}
      {I : β → Prop} {J : γ → Prop} : I b →
      (∀ b, I b → Performs pre post (body b) (Sum.elim I J)) →
      (∀ c, J c → Performs pre post (k c) Q) → Performs pre post (.iter body b k) Q

namespace Performs

variable {pre pre' : Op → Prop} {post post' : (o : Op) → Res o → Prop} {p : Prog Res α}
  {Q Q' : α → Prop}

/-- A weaker outcome. -/
theorem mono (h : Performs pre post p Q) (hQ : ∀ a, Q a → Q' a) : Performs pre post p Q' := by
  induction h with
  | ret ha => exact .ret (hQ _ ha)
  | op ho _ ih => exact .op ho fun r hr => ih r hr hQ
  | iter hb hbody _ _ ih => exact .iter hb hbody fun c hc => ih c hc hQ

/-- More operations, and more known of their results. -/
theorem weaken (h : Performs pre post p Q) (hpre : ∀ o, pre o → pre' o)
    (hpost : ∀ o r, post' o r → post o r) : Performs pre' post' p Q := by
  induction h with
  | ret ha => exact .ret ha
  | op ho _ ih => exact .op (hpre _ ho) fun r hr => ih r (hpost _ r hr)
  | iter hb _ _ ihb ihk => exact .iter hb ihb ihk

/-- Two bounds on the effects of one program. -/
theorem and {Q₂ : α → Prop} (h : Performs pre post p Q) (h₂ : Performs pre' post p Q₂) :
    Performs (fun o => pre o ∧ pre' o) post p fun a => Q a ∧ Q₂ a := by
  induction h with
  | ret ha =>
    cases h₂ with
    | ret ha₂ => exact .ret ⟨ha, ha₂⟩
  | op ho _ ih =>
    cases h₂ with
    | op ho₂ hk₂ => exact .op ⟨ho, ho₂⟩ fun r hr => ih r hr (hk₂ r hr)
  | @iter _ _ _ _ _ _ _ I J hb _ _ ihb ihk =>
    cases h₂ with
    | @iter _ _ _ _ _ _ _ I₂ J₂ hb₂ hbody₂ hk₂ =>
      refine .iter (I := fun b => I b ∧ I₂ b) (J := fun c => J c ∧ J₂ c) ⟨hb, hb₂⟩ (fun b hb => ?_)
        fun c hc => ihk c hc.1 (hk₂ c hc.2)
      refine (ihb b hb.1 (hbody₂ b hb.2)).mono fun x hx => ?_
      cases x with
      | inl b' => exact hx
      | inr c => exact hx

/-- `p`, then `f` of its result. -/
theorem bind {f : α → Prog Res β} {M : α → Prop} {Q : β → Prop} (hp : Performs pre post p M)
    (hf : ∀ a, M a → Performs pre post (f a) Q) : Performs pre post (p.bind f) Q := by
  induction hp with
  | ret ha => exact hf _ ha
  | op ho _ ih => exact .op ho fun r hr => ih r hr hf
  | iter hb hbody _ _ ih => exact .iter hb hbody fun c hc => ih c hc hf

/-- One operation. -/
theorem perform {o : Op} (ho : pre o) : Performs pre post (Prog.perform o) (post o) :=
  .op ho fun _ hr => .ret hr

/-- One operation, and what follows it. -/
theorem step {o : Op} {f : Res o → Prog Res α} (ho : pre o)
    (hf : ∀ r, post o r → Performs pre post (f r) Q) :
    Performs pre post ((Prog.perform o).bind f) Q :=
  .op ho hf

/-- A loop. -/
theorem loop {body : β → Prog Res (β ⊕ γ)} {b : β} {I : β → Prop} {J : γ → Prop} (hb : I b)
    (hbody : ∀ b, I b → Performs pre post (body b) (Sum.elim I J)) :
    Performs pre post (Prog.loop body b) J :=
  .iter hb hbody fun _ hc => .ret hc

/-- `while (cond) body`. -/
theorem whileLoop {cond : β → Bool} {body : β → Prog Res β} {b : β} {I : β → Prop} (hb : I b)
    (hbody : ∀ b, I b → Performs pre post (body b) I) :
    Performs pre post (Prog.whileLoop cond body b) I := by
  unfold Prog.whileLoop
  split
  · refine loop hb fun b hb => (hbody b hb).bind fun b' hb' => .ret ?_
    split <;> exact hb'
  · exact .ret hb

/-! ### Invariants -/

/-- The program's own operation is one of those it may perform, and so are those that are
left. -/
theorem op_inv {o : Op} {k : Res o → Prog Res α} (h : Performs pre post (.op o k) Q) :
    pre o ∧ ∀ r, post o r → Performs pre post (k r) Q := by
  cases h with
  | op ho hk => exact ⟨ho, hk⟩

/-- A round of a loop, and what is left after it. -/
theorem iter_inv {body : β → Prog Res (β ⊕ γ)} {b : β} {k : γ → Prog Res α}
    (h : Performs pre post (.iter body b k) Q) :
    Performs pre post ((body b).bind (again body k)) Q := by
  cases h with
  | iter hb hbody hk =>
    refine (hbody b hb).bind fun x hx => ?_
    cases x with
    | inl b' => exact .iter hx hbody hk
    | inr c => exact hk c hx

variable {S : Type} {I : S → Prop}

/-- An invariant of the operations is one of the sequential runs. -/
theorem returns {sem : (o : Op) → S → Res o → S → Prop} (h : Performs pre post p Q)
    (hI : ∀ o s r s', pre o → I s → sem o s r s' → post o r ∧ I s') {s s' : S} {a : α}
    (hs : I s) (hr : Returns sem p s a s') : Q a ∧ I s' := by
  obtain ⟨tr, hr⟩ := hr
  induction hr with
  | ret =>
    cases h with
    | ret ha => exact ⟨ha, hs⟩
  | op hsem _ ih =>
    obtain ⟨ho, hk⟩ := h.op_inv
    obtain ⟨hpost, hs₁⟩ := hI _ _ _ _ ho hs hsem
    exact ih (hk _ hpost) hs₁
  | iter _ ih => exact ih h.iter_inv hs

/-- An invariant of the operations that others keep is one of the interleavings. -/
theorem triple {C : Contract Res S} (h : Performs pre post p Q)
    (hst : ∀ o, C.Stable o I)
    (hI : ∀ o s r s', pre o → I s → C.sem o s r s' → post o r ∧ C.guar o s r s' ∧ I s') :
    Triple C I p fun a s => Q a ∧ I s := by
  induction h with
  | ret ha => exact .ret fun s hs => ⟨ha, hs⟩
  | @op _ o k Q ho _ ih =>
    refine .op (M := fun r s => post o r ∧ I s) (fun _ h => h) (hst _) (fun s r s' hs hsem => ?_)
      fun r => ?_
    · obtain ⟨hpost, hg, hs'⟩ := hI _ _ _ _ ho hs hsem
      exact ⟨hg, hpost, hs'⟩
    · by_cases hr : post o r
      · exact (ih r hr).pre fun s hs => hs.2
      · exact Triple.of_false fun s hs => hr hs.1
  | @iter _ _ _ _ _ _ _ L J hb _ _ ihb ihk =>
    refine .iter (I := fun b s => L b ∧ I s) (J := fun c s => J c ∧ I s) (fun s hs => ⟨hb, hs⟩)
      (fun b s s' hr h => ⟨h.1, hst none s s' hr h.2⟩) (fun b => ?_) fun c => ?_
    · by_cases hL : L b
      · refine ((ihb b hL).pre fun s hs => hs.2).post fun x s hx => ?_
        cases x with
        | inl b' => exact hx
        | inr c => exact hx
      · exact Triple.of_false fun s hs => hL hs.1
    · by_cases hJ : J c
      · exact (ihk c hJ).pre fun s hs => hs.2
      · exact Triple.of_false fun s hs => hJ hs.1

end Performs

end PhpZookeeper.Theory
