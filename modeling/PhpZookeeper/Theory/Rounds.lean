import PhpZookeeper.Theory.Interactive

/-!
# The rounds of a loop

A loop that returns has gone round its body a number of times. `Rounds` counts them, and
`returns_loop_iff` says that the loop returns exactly what its rounds return; what a loop does is
then argued by induction on its rounds.
-/

namespace PhpZookeeper.Theory

open Prog

variable {Op : Type} {Res : Op → Type} {S : Type} {β γ : Type}

/-- `Rounds sem body k b s c s'`: `k` rounds of `body`, the first one with the loop variables `b`,
lead from the state `s` to the outcome `c` and the state `s'`. -/
inductive Rounds (sem : (o : Op) → S → Res o → S → Prop) (body : β → Prog Res (β ⊕ γ)) :
    ℕ → β → S → γ → S → Prop where
  /-- The last round. -/
  | last {b : β} {s s' : S} {c : γ} : Returns sem (body b) s (.inr c) s' →
      Rounds sem body 1 b s c s'
  /-- A round, and more. -/
  | next {k : ℕ} {b b' : β} {s s₁ s' : S} {c : γ} : Returns sem (body b) s (.inl b') s₁ →
      Rounds sem body k b' s₁ c s' → Rounds sem body (k + 1) b s c s'

variable {sem : (o : Op) → S → Res o → S → Prop} {body : β → Prog Res (β ⊕ γ)}
  {q : Prog Res (β ⊕ γ)} {b : β} {c : γ} {s s' : S} {tr : List Op}

/-- A run that is in a round of a loop finishes the round, and then the loop. -/
theorem Prog.Run.rounds (h : Run sem (q.bind (again body .ret)) s tr c s') :
    ∃ x s₁, Returns sem q s x s₁ ∧
      Sum.elim (fun b => ∃ k, Rounds sem body k b s₁ c s') (fun c' => c' = c ∧ s₁ = s') x := by
  generalize hp : q.bind (again body .ret) = p at h
  induction h generalizing β with
  | @ret a s =>
    cases q with
    | ret x =>
      cases x with
      | inl b => cases hp
      | inr c =>
        obtain rfl : c = a := Prog.ret.inj hp
        exact ⟨.inr c, s, returns_ret_iff.mpr ⟨rfl, rfl⟩, rfl, rfl⟩
    | op o k => cases hp
    | iter body' b k => cases hp
  | @op o k s s₁ s' r tr a hs hk ih =>
    cases q with
    | ret x => cases x <;> cases hp
    | op o' k' =>
      simp only [op_bind, op.injEq] at hp
      obtain ⟨rfl, hk'⟩ := hp
      obtain ⟨x, s₂, hx, hrest⟩ := ih (q := k' r) (by rw [← eq_of_heq hk'])
      exact ⟨x, s₂, returns_op_iff.mpr ⟨r, s₁, hs, hx⟩, hrest⟩
    | iter body' b k' => cases hp
  | @iter β₁ γ₁ body₁ b₁ k s s' tr a hb ih =>
    cases q with
    | ret x =>
      cases x with
      | inl b' =>
        -- the loop goes round again
        simp only [ret_bind, again_inl, iter.injEq] at hp
        obtain ⟨rfl, rfl, hbody, hb', hk'⟩ := hp
        cases hbody
        cases hb'
        cases hk'
        obtain ⟨x, s₂, hx, hrest⟩ := ih (q := body b') rfl
        refine ⟨.inl b', s, returns_ret_iff.mpr ⟨rfl, rfl⟩, ?_⟩
        cases x with
        | inl b₂ =>
          obtain ⟨k, hk⟩ := hrest
          exact ⟨k + 1, .next hx hk⟩
        | inr c =>
          obtain ⟨rfl, rfl⟩ := hrest
          exact ⟨1, .last hx⟩
      | inr c => cases hp
    | op o' k' => cases hp
    | iter body₂ b₂ k₂ =>
      simp only [iter_bind, iter.injEq] at hp
      obtain ⟨rfl, rfl, hbody, hb', hk'⟩ := hp
      cases hbody
      cases hb'
      cases hk'
      obtain ⟨x, s₂, hx, hrest⟩ :=
        ih (q := (body₂ b₂).bind (again body₂ k₂)) (by exact bind_again_bind ..)
      exact ⟨x, s₂, returns_iter_iff.mpr hx, hrest⟩

/-- **A loop returns what its rounds return.** -/
theorem returns_loop_iff : Returns sem (loop body b) s c s' ↔ ∃ k, Rounds sem body k b s c s' := by
  constructor
  · rintro ⟨tr, h⟩
    obtain ⟨x, s₁, hx, hrest⟩ := (run_iter_iff.mp h).rounds
    cases x with
    | inl b' =>
      obtain ⟨k, hk⟩ := hrest
      exact ⟨k + 1, .next hx hk⟩
    | inr c' =>
      obtain ⟨rfl, rfl⟩ := hrest
      exact ⟨1, .last hx⟩
  · rintro ⟨k, h⟩
    induction h with
    | last hx => exact returns_iter_iff.mpr (returns_bind_iff.mpr ⟨_, _, hx, by simp⟩)
    | next hx _ ih => exact returns_iter_iff.mpr (returns_bind_iff.mpr ⟨_, _, hx, ih⟩)

end PhpZookeeper.Theory
