import Mathlib.Data.List.Chain
import Mathlib.Logic.Function.Iterate

/-!
# Versions of a value

A value that is kept with a version: whoever writes the value moves the version on. In a history
too short for the version to come back to where it was, two states of one version have one value,
and so has every state between them (`eq_of_version_eq`); so a writer that insists on the version
it has read overwrites what it has read, and nothing else.
-/

namespace PhpZookeeper.Theory

variable {S V α : Type}

/-- A step leaves the value and its version alone, or moves the version on. -/
def MovesOn (version : S → V) (value : S → α) (next : V → V) (s s' : S) : Prop :=
  version s' = version s ∧ value s' = value s ∨ version s' = next (version s)

namespace MovesOn

variable {version : S → V} {value : S → α} {next : V → V} {s s' : S} {l : List S}

/-- In a history, its last state first, the version moves on as often as it does; if it never does,
the value stays what it was. -/
theorem exists_iterate
    (h : List.IsChain (fun s' s => MovesOn version value next s s') (l ++ [s]))
    (hlast : (l ++ [s]).head? = some s') :
    ∃ k ≤ l.length, version s' = next^[k] (version s) ∧
      (k = 0 → ∀ u ∈ l ++ [s], version u = version s ∧ value u = value s) := by
  induction l generalizing s' with
  | nil =>
    obtain rfl : s = s' := by simpa using hlast
    exact ⟨0, le_rfl, rfl, by simp⟩
  | cons u l ih =>
    obtain rfl : u = s' := by simpa using hlast
    obtain ⟨v, hv⟩ : ∃ v, (l ++ [s]).head? = some v := by cases l <;> simp
    rw [List.cons_append, List.isChain_cons] at h
    obtain ⟨hstep, hchain⟩ := h
    obtain ⟨k, hk, hversion, hstill⟩ := ih hchain hv
    rcases hstep v hv with ⟨hsame, hvalue⟩ | hnext
    · refine ⟨k, hk.trans (Nat.le_succ _), hsame.trans hversion, fun hzero => ?_⟩
      have hall := hstill hzero
      have hu := hall v (List.mem_of_mem_head? hv)
      intro x hx
      rcases List.mem_cons.mp hx with rfl | hx
      · exact ⟨hsame.trans hu.1, hvalue.trans hu.2⟩
      · exact hall x hx
    · refine ⟨k + 1, Nat.succ_le_succ hk, ?_, fun hzero => absurd hzero k.succ_ne_zero⟩
      rw [hnext, hversion, Function.iterate_succ_apply']

/-- **Equal versions, equal values**: unless the version may have come round again, two states of
one version have the same value, and so have the states between them. -/
theorem eq_of_version_eq
    (h : List.IsChain (fun s' s => MovesOn version value next s s') (l ++ [s]))
    (hlast : (l ++ [s]).head? = some s')
    (hround : ∀ k, 0 < k → k ≤ l.length → next^[k] (version s) ≠ version s)
    (hversion : version s' = version s) {u : S} (hu : u ∈ l ++ [s]) :
    version u = version s ∧ value u = value s := by
  obtain ⟨k, hk, hiterate, hstill⟩ := exists_iterate h hlast
  rcases Nat.eq_zero_or_pos k with hzero | hpos
  · exact hstill hzero u hu
  · exact absurd (hiterate.symm.trans hversion) (hround k hpos hk)

end MovesOn

end PhpZookeeper.Theory
