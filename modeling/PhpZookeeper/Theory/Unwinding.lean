import Mathlib.Data.List.Basic
import Mathlib.Logic.Function.Basic

/-!
# Domains that do not interfere

Each step of a system belongs to a *domain*, and `view d s t` says that for all the domain `d` can
tell the state `t` is as good as `s`: what it can do in `s` it can do in `t`. When steps of other
domains, in the one state or in the other, make no difference to that (`Unwinding`), the domains do
not interfere: what a domain does among the others it can do alone (`Unwinding.alone`), and what
each can do alone they can do together, in any order (`Unwinding.together`).
-/

namespace PhpZookeeper.Theory

universe u v w

variable {S : Type u} {L : Type v} {D : Type w}

/-- The steps `ls`, one after another, lead from one state to the other. -/
inductive Steps (step : S → L → S → Prop) : S → List L → S → Prop where
  /-- No step. -/
  | nil {s : S} : Steps step s [] s
  /-- The first step, then the rest. -/
  | cons {s s₁ s' : S} {l : L} {ls : List L} : step s l s₁ → Steps step s₁ ls s' →
      Steps step s (l :: ls) s'

namespace Steps

variable {step : S → L → S → Prop} {s s' : S} {l : L} {ls ls' : List L}

theorem nil_iff : Steps step s [] s' ↔ s' = s := by
  constructor
  · intro h
    cases h
    rfl
  · rintro rfl
    exact .nil

theorem cons_iff : Steps step s (l :: ls) s' ↔ ∃ s₁, step s l s₁ ∧ Steps step s₁ ls s' := by
  constructor
  · intro h
    cases h with
    | cons hl hls => exact ⟨_, hl, hls⟩
  · rintro ⟨s₁, hl, hls⟩
    exact .cons hl hls

/-- Steps after steps. -/
theorem append {s₁ : S} (h : Steps step s ls s₁) (h' : Steps step s₁ ls' s') :
    Steps step s (ls ++ ls') s' := by
  induction h with
  | nil => exact h'
  | cons hl _ ih => exact .cons hl (ih h')

end Steps

/-- A domain can do in the second state what it does in the first one, and the steps of the others
make no difference to it, in states that satisfy `I`. -/
structure Unwinding (step : S → L → S → Prop) (dom : L → D) (I : S → Prop)
    (view : D → S → S → Prop) : Prop where
  inv : ∀ {s l s'}, I s → step s l s' → I s'
  transfer : ∀ {s t l s'}, I s → I t → view (dom l) s t → step s l s' →
    ∃ t', step t l t' ∧ view (dom l) s' t'
  unseenLeft : ∀ {s t l s' d}, I s → d ≠ dom l → view d s t → step s l s' → view d s' t
  unseenRight : ∀ {s t l t' d}, I t → d ≠ dom l → view d s t → step t l t' → view d s t'

namespace Unwinding

variable [DecidableEq D] {step : S → L → S → Prop} {dom : L → D} {I : S → Prop}
  {view : D → S → S → Prop} (h : Unwinding step dom I view)
include h

/-- **Alone.** A domain can do what it does among the others without them. -/
theorem alone {d : D} {s s' t : S} {ls : List L} (hrun : Steps step s ls s') (hs : I s) (ht : I t)
    (hview : view d s t) :
    ∃ t', Steps step t (ls.filter fun l => dom l = d) t' ∧ view d s' t' := by
  induction hrun generalizing t with
  | nil => exact ⟨t, .nil, hview⟩
  | @cons s s₁ s' l ls hl _ ih =>
    have hs₁ := h.inv hs hl
    by_cases hd : dom l = d
    · subst hd
      obtain ⟨t₁, hl', hview₁⟩ := h.transfer hs ht hview hl
      obtain ⟨t', hrun', hview'⟩ := ih hs₁ (h.inv ht hl') hview₁
      exact ⟨t', by rw [List.filter_cons_of_pos (by simp)]; exact .cons hl' hrun', hview'⟩
    · obtain ⟨t', hrun', hview'⟩ := ih hs₁ ht (h.unseenLeft hs (Ne.symm hd) hview hl)
      exact ⟨t', by rwa [List.filter_cons_of_neg (by simpa using hd)], hview'⟩

/-- **Together.** What each domain can do alone, they can do together, in any order. -/
theorem together {s : S} {t t' : D → S} {ls : List L} (hs : I s) (ht : ∀ d, I (t d))
    (hview : ∀ d, view d (t d) s)
    (hrun : ∀ d, Steps step (t d) (ls.filter fun l => dom l = d) (t' d)) :
    ∃ s', Steps step s ls s' ∧ ∀ d, view d (t' d) s' := by
  induction ls generalizing s t with
  | nil =>
    refine ⟨s, .nil, fun d => ?_⟩
    rw [Steps.nil_iff.mp (hrun d)]
    exact hview d
  | cons l ls ih =>
    have hown := hrun (dom l)
    rw [List.filter_cons_of_pos (by simp)] at hown
    obtain ⟨t₁, hl, hrest⟩ := Steps.cons_iff.mp hown
    obtain ⟨s₁, hl', hview₁⟩ := h.transfer (ht _) hs (hview _) hl
    -- the domain of the step moves on, the others stay where they are
    let t₂ : D → S := Function.update t (dom l) t₁
    have ht₂ : ∀ d, I (t₂ d) ∧ view d (t₂ d) s₁ ∧
        Steps step (t₂ d) (ls.filter fun l => dom l = d) (t' d) := by
      intro d
      by_cases hd : d = dom l
      · subst hd
        simp only [t₂, Function.update_self]
        exact ⟨h.inv (ht _) hl, hview₁, hrest⟩
      · have hothers := hrun d
        rw [List.filter_cons_of_neg (by simpa using Ne.symm hd)] at hothers
        simp only [t₂, Function.update_of_ne hd]
        exact ⟨ht d, h.unseenRight hs hd (hview d) hl', hothers⟩
    obtain ⟨s', hrun', hview'⟩ := ih (h.inv hs hl') (fun d => (ht₂ d).1) (fun d => (ht₂ d).2.1)
      fun d => (ht₂ d).2.2
    exact ⟨s', .cons hl' hrun', hview'⟩

end Unwinding

end PhpZookeeper.Theory
