import Mathlib.Data.List.Perm.Basic
import Mathlib.Data.List.Sort

/-!
# Sorting by a key

What a sorting function such as C's `qsort` leaves: the elements it was given, in an order that its
comparator allows. When the comparator looks at a key of what an element names, the sorted list is
that of the elements sorted by their keys.
-/

namespace PhpZookeeper.Theory

variable {α β κ : Type} [LinearOrder κ]

/-- `l'` is the list `l`, sorted by a comparator that allows `a` before `b` when `le a b`. -/
structure SortedBy (le : α → α → Prop) (l l' : List α) : Prop where
  perm : l'.Perm l
  pairwise : l'.Pairwise le

namespace SortedBy

variable {le : β → β → Prop} {f : α → β} {key : α → κ} {l m : List α} {l' : List β}

/-- A sorted list of names is the list of the sorted elements' names. -/
theorem of_map (h : SortedBy le (l.map f) l') (hle : ∀ a b, le (f a) (f b) ↔ key a ≤ key b) :
    ∃ m, SortedBy (fun a b => key a ≤ key b) l m ∧ l' = m.map f := by
  have hcomp : Relation.Comp (· = List.map f ·) List.Perm l' l := by
    rw [List.eq_map_comp_perm]
    exact h.perm
  obtain ⟨m, rfl, hm⟩ := hcomp
  have hpairwise := List.pairwise_map.mp h.pairwise
  exact ⟨m, ⟨hm, hpairwise.imp fun h => (hle _ _).mp h⟩, rfl⟩

/-- The first of a sorted list has the least key. -/
theorem head_le (h : SortedBy (fun a b => key a ≤ key b) l m) {a b : α} (ha : m.head? = some a)
    (hb : b ∈ l) : key a ≤ key b := by
  obtain ⟨rest, rfl⟩ := List.head?_eq_some_iff.mp ha
  rcases List.mem_cons.mp (h.perm.mem_iff.mpr hb) with rfl | hrest
  · exact le_rfl
  · exact (List.pairwise_cons.mp h.pairwise).1 b hrest

/-- When the keys differ there is one sorted list. -/
theorem eq_of_lt (h : SortedBy (fun a b => key a ≤ key b) l m)
    (hlt : l.Pairwise fun a b => key a < key b) : m = l := by
  have hnodup : (l.map key).Nodup := List.pairwise_map.mpr (hlt.imp fun h => h.ne)
  refine List.Perm.eq_of_pairwise ?_ h.pairwise (hlt.imp fun h => h.le) h.perm
  intro a b ha hb hab hba
  exact List.inj_on_of_nodup_map hnodup (h.perm.mem_iff.mp ha) hb (le_antisymm hab hba)

end SortedBy

/-- Insertion sort is a sorting function. -/
theorem sortedBy_insertionSort (key : α → κ) (l : List α) :
    SortedBy (fun a b => key a ≤ key b) l (l.insertionSort fun a b => key a ≤ key b) := by
  let le : α → α → Prop := fun a b => key a ≤ key b
  have : Std.Total le := ⟨fun a b => le_total (key a) (key b)⟩
  have : IsTrans α le := ⟨fun _ _ _ => le_trans⟩
  exact ⟨List.perm_insertionSort le l, List.pairwise_insertionSort le l⟩

end PhpZookeeper.Theory
