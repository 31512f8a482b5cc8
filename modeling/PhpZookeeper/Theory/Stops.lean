import PhpZookeeper.Theory.Interactive

/-!
# Where a run is left

A run may be left before one of its operations, by a jump out of the program for one.
`StopsAt sem p s o s'` says that `p`, started in `s`, comes to the operation `o` in the state `s'`.
-/

namespace PhpZookeeper.Theory

open Prog

variable {Op : Type} {Res : Op → Type} {S : Type} {α β γ : Type}

/-- `StopsAt sem p s o s'`: see the module's header. -/
inductive StopsAt (sem : (o : Op) → S → Res o → S → Prop) :
    {α : Type} → Prog Res α → S → Op → S → Prop where
  /-- The next operation is the one. -/
  | here {α : Type} {o : Op} {k : Res o → Prog Res α} {s : S} : StopsAt sem (.op o k) s o s
  /-- One operation, then the rest. -/
  | op {α : Type} {o o' : Op} {k : Res o → Prog Res α} {s s₁ s' : S} {r : Res o} :
      sem o s r s₁ → StopsAt sem (k r) s₁ o' s' → StopsAt sem (.op o k) s o' s'
  /-- One round, then what follows it. -/
  | iter {α β γ : Type} {body : β → Prog Res (β ⊕ γ)} {b : β} {k : γ → Prog Res α} {s s' : S}
      {o : Op} : StopsAt sem ((body b).bind (again body k)) s o s' →
      StopsAt sem (.iter body b k) s o s'

namespace StopsAt

variable {sem : (o : Op) → S → Res o → S → Prop} {s s' : S} {o o' : Op} {a : α}

@[simp] theorem ret_iff : StopsAt sem (.ret a : Prog Res α) s o s' ↔ False :=
  ⟨nofun, False.elim⟩

@[simp] theorem op_iff {k : Res o → Prog Res α} :
    StopsAt sem (.op o k) s o' s' ↔
      o' = o ∧ s' = s ∨ ∃ r s₁, sem o s r s₁ ∧ StopsAt sem (k r) s₁ o' s' := by
  constructor
  · intro h
    cases h with
    | here => exact .inl ⟨rfl, rfl⟩
    | op hs hk => exact .inr ⟨_, _, hs, hk⟩
  · rintro (⟨rfl, rfl⟩ | ⟨r, s₁, hs, hk⟩)
    · exact .here
    · exact .op hs hk

/-- The run is left in `p`, or `p` returns and the run is left in the rest. -/
theorem of_bind {p : Prog Res β} {f : β → Prog Res α} (h : StopsAt sem (p.bind f) s o s') :
    StopsAt sem p s o s' ∨ ∃ c s₁, Returns sem p s c s₁ ∧ StopsAt sem (f c) s₁ o s' := by
  generalize hq : p.bind f = q at h
  induction h generalizing β with
  | @here o k s =>
    cases p with
    | ret c =>
      refine .inr ⟨c, s, returns_ret_iff.mpr ⟨rfl, rfl⟩, ?_⟩
      rw [← ret_bind c f, hq]
      exact .here
    | op o' k' =>
      simp only [op_bind, op.injEq] at hq
      obtain ⟨rfl, -⟩ := hq
      exact .inl .here
    | iter body b k' => cases hq
  | @op o o' k s s₁ s' r hs hk ih =>
    cases p with
    | ret c =>
      refine .inr ⟨c, s, returns_ret_iff.mpr ⟨rfl, rfl⟩, ?_⟩
      rw [← ret_bind c f, hq]
      exact .op hs hk
    | op o₁ k' =>
      simp only [op_bind, op.injEq] at hq
      obtain ⟨rfl, hk'⟩ := hq
      rcases ih (p := k' r) (f := f) (by rw [← eq_of_heq hk']) with hp | ⟨c, s₂, hret, hrest⟩
      · exact .inl (.op hs hp)
      · exact .inr ⟨c, s₂, returns_op_iff.mpr ⟨r, s₁, hs, hret⟩, hrest⟩
    | iter body b k' => cases hq
  | @iter _ _ body b k s s' o hb ih =>
    cases p with
    | ret c =>
      refine .inr ⟨c, s, returns_ret_iff.mpr ⟨rfl, rfl⟩, ?_⟩
      rw [← ret_bind c f, hq]
      exact .iter hb
    | op o' k' => cases hq
    | iter body' b' k' =>
      simp only [iter_bind, iter.injEq] at hq
      obtain ⟨rfl, rfl, hbody, hb', hk'⟩ := hq
      cases hbody
      cases hb'
      cases hk'
      rcases ih (p := (body' b').bind (again body' k')) (f := f) (bind_again_bind body' b' k' f)
        with hp | ⟨c, s₁, hret, hrest⟩
      · exact .inl (.iter hp)
      · exact .inr ⟨c, s₁, returns_iter_iff.mpr hret, hrest⟩

end StopsAt

end PhpZookeeper.Theory
