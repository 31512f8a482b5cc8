import Mathlib.Data.List.Basic
import Mathlib.Order.Monotone.Basic

/-!
# Histories that are read with a lag

A history is a list of states, the last one first. A reader may be shown a state of the past, but
from then on none before that one. One history reads like another when a reader of the second can
find, in the same order, states that are as good as those of the first (`ReadsLike`); so it does
after the same has been read from both (`ReadsLike.read`), and states that do not make a difference
can be added to either.
-/

namespace PhpZookeeper.Theory

universe u v

variable {α : Type u} {β : Type v}

/-- What is found in `L`, in whatever order a reader may find it, is found in `L'` too, as far as
`R` can tell; and the last states are alike. -/
def ReadsLike (R : α → β → Prop) (L : List α) (L' : List β) : Prop :=
  ∃ f : ℕ → ℕ, Monotone f ∧ f 0 = 0 ∧
    ∀ (i : ℕ) (a : α), L[i]? = some a → ∃ b, L'[f i]? = some b ∧ R a b

namespace ReadsLike

variable {R : α → β → Prop} {a a' : α} {b b' : β} {L : List α} {L' : List β}

theorem refl {R : α → α → Prop} (hR : ∀ a, R a a) (L : List α) : ReadsLike R L L :=
  ⟨id, monotone_id, rfl, fun _ a ha => ⟨a, ha, hR a⟩⟩

theorem singleton (h : R a b) : ReadsLike R [a] [b] := by
  refine ⟨fun _ => 0, monotone_const, rfl, fun i x hx => ?_⟩
  obtain rfl := List.mem_singleton.mp (List.mem_of_getElem? hx)
  exact ⟨b, rfl, h⟩

theorem head (h : ReadsLike R (a :: L) (b :: L')) : R a b := by
  obtain ⟨f, -, hzero, hf⟩ := h
  obtain ⟨x, hx, hR⟩ := hf 0 a rfl
  rw [hzero] at hx
  rwa [Option.some.inj hx]

/-- A new state on the left that is as good as the last one on the right. -/
theorem left (h : ReadsLike R (a :: L) (b :: L')) (hR : R a' b) :
    ReadsLike R (a' :: a :: L) (b :: L') := by
  obtain ⟨f, hmono, hzero, hf⟩ := h
  refine ⟨fun i => f (i - 1), fun i j hij => hmono (by omega), hzero, fun i x hx => ?_⟩
  cases i with
  | zero =>
    obtain rfl := Option.some.inj hx
    exact ⟨b, by simp [hzero], hR⟩
  | succ i => exact hf i x hx

/-- A new state on the right that is as good as the last one on the left. -/
theorem right (h : ReadsLike R (a :: L) (b :: L')) (hR : R a b') :
    ReadsLike R (a :: L) (b' :: b :: L') := by
  obtain ⟨f, hmono, hzero, hf⟩ := h
  refine ⟨fun i => if i = 0 then 0 else f i + 1, fun i j hij => ?_, by simp, fun i x hx => ?_⟩
  · dsimp only
    split_ifs with hi hj
    · exact le_rfl
    · exact Nat.zero_le _
    · omega
    · exact Nat.succ_le_succ (hmono hij)
  · cases i with
    | zero =>
      obtain rfl := Option.some.inj hx
      exact ⟨b', by simp, hR⟩
    | succ i => exact hf (i + 1) x hx

/-- New states on both sides that are alike. -/
theorem both (h : ReadsLike R (a :: L) (b :: L')) (hR : R a' b') :
    ReadsLike R (a' :: a :: L) (b' :: b :: L') := by
  obtain ⟨f, hmono, hzero, hf⟩ := h
  refine ⟨fun i => if i = 0 then 0 else f (i - 1) + 1, fun i j hij => ?_, by simp,
    fun i x hx => ?_⟩
  · dsimp only
    split_ifs with hi hj
    · exact le_rfl
    · exact Nat.zero_le _
    · omega
    · exact Nat.succ_le_succ (hmono (by omega))
  · cases i with
    | zero =>
      obtain rfl := Option.some.inj hx
      exact ⟨b', by simp, hR⟩
    | succ i => exact hf i x hx

/-- **What is read on the left** can be read on the right, and what is left to read after that is
alike again. -/
theorem read (h : ReadsLike R (a :: L) (b :: L')) {i : ℕ} {x : α} (hx : (a :: L)[i]? = some x) :
    ∃ j y, (b :: L')[j]? = some y ∧ R x y ∧ ReadsLike R (a :: L.take i) (b :: L'.take j) := by
  obtain ⟨f, hmono, hzero, hf⟩ := h
  obtain ⟨y, hy, hR⟩ := hf i x hx
  refine ⟨f i, y, hy, hR, f, hmono, hzero, fun k z hz => ?_⟩
  rw [← List.take_succ_cons, List.getElem?_take] at hz
  split_ifs at hz with hk
  obtain ⟨w, hw, hRw⟩ := hf k z hz
  refine ⟨w, ?_, hRw⟩
  have hle : f k < f i + 1 := Nat.lt_succ_of_le (hmono (Nat.le_of_lt_succ hk))
  rwa [← List.take_succ_cons, List.getElem?_take, if_pos hle]

end ReadsLike

end PhpZookeeper.Theory
