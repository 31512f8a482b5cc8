import Mathlib.Data.List.Basic
import Mathlib.Logic.Function.Basic
import Mathlib.Order.Lattice

/-!
# A store whose entries expire

Each entry has a value and a time. A reader has a limit, and finds an entry whose time is not before
it; an entry before the limit may be dropped by whoever comes across it. Nobody can tell, as long as
no reader's limit is before one that was used earlier: it finds what was last put and not removed
since, unless that has expired (`Expiring.History.found`).
-/

namespace PhpZookeeper.Theory

variable {K V T : Type}

/-- The entries of a store. -/
abbrev Expiring (K V T : Type) := K → Option (V × T)

/-- What happens to the store. -/
inductive StoreEvent (K V T : Type) where
  | put (k : K) (v : V) (t : T)
  | remove (k : K)
  /-- A reader looks for an entry, and may drop it. -/
  | read (k : K) (limit : T) (found : Option V)
  /-- Any entries before the limit may be dropped. -/
  | collect (limit : T)

/-- The limit that is used. -/
def StoreEvent.limit : StoreEvent K V T → Option T
  | .read _ limit _ | .collect limit => some limit
  | _ => none

namespace Expiring

section Drops

variable [LinearOrder T] {e e' e'' : Expiring K V T} {l l' : T} {k : K}

/-- What a reader finds. -/
def find (e : Expiring K V T) (limit : T) (k : K) : Option V :=
  ((e k).filter fun x => limit ≤ x.2).map Prod.fst

/-- `e'` is `e`, but for some entries before the limit. -/
def Drops (limit : T) (e e' : Expiring K V T) : Prop :=
  ∀ k, e' k = e k ∨ e' k = none ∧ ∀ x ∈ e k, x.2 < limit

theorem Drops.refl (limit : T) (e : Expiring K V T) : e.Drops limit e := fun _ => .inl rfl

theorem Drops.mono (h : e.Drops l e') (hl : l ≤ l') : e.Drops l' e' := fun k =>
  (h k).imp_right fun hk => ⟨hk.1, fun x hx => (hk.2 x hx).trans_le hl⟩

theorem Drops.trans (h : e.Drops l e') (h' : e'.Drops l e'') : e.Drops l e'' := by
  intro k
  rcases h' k with hk' | ⟨hnone, hlt⟩
  · rw [hk']
    exact h k
  · rcases h k with hk | ⟨-, hlt'⟩
    · exact .inr ⟨hnone, hk ▸ hlt⟩
    · exact .inr ⟨hnone, hlt'⟩

/-- A reader whose limit is not before the others' cannot tell. -/
theorem Drops.find_eq (h : e.Drops l e') (hl : l ≤ l') (k : K) : e'.find l' k = e.find l' k := by
  rcases h k with hk | ⟨hnone, hlt⟩
  · rw [find, hk, find]
  · rw [find, find, hnone]
    cases hk : e k with
    | none => rfl
    | some x =>
      have hexpired : ¬ l' ≤ x.2 := ((hlt x hk).trans_le hl).not_ge
      rw [Option.filter_some, if_neg (by simpa using hexpired)]
      rfl

theorem Drops.update [DecidableEq K] (h : e.Drops l e') (k : K) (x : Option (V × T)) :
    Expiring.Drops l (Function.update e k x) (Function.update e' k x) := by
  intro k'
  by_cases hk : k' = k
  · subst hk
    simp
  · rw [Function.update_of_ne hk, Function.update_of_ne hk]
    exact h k'

end Drops

/-! ### Histories -/

variable [DecidableEq K]

/-- The entries when nothing is dropped. -/
def written (e₀ : Expiring K V T) : List (StoreEvent K V T) → Expiring K V T
  | [] => e₀
  | .put k v t :: past => Function.update (written e₀ past) k (some (v, t))
  | .remove k :: past => Function.update (written e₀ past) k none
  | .read _ _ _ :: past | .collect _ :: past => written e₀ past

variable [LinearOrder T] {e₀ e : Expiring K V T} {past later before : List (StoreEvent K V T)}
  {limit : T} {k : K} {v : Option V}

/-- `History e₀ past e`: from `e₀`, the events `past`, the last one first, lead to `e`. -/
inductive History (e₀ : Expiring K V T) : List (StoreEvent K V T) → Expiring K V T → Prop where
  | start : History e₀ [] e₀
  | put {past : List (StoreEvent K V T)} {e : Expiring K V T} (k : K) (v : V) (t : T) :
      History e₀ past e → History e₀ (.put k v t :: past) (Function.update e k (some (v, t)))
  | remove {past : List (StoreEvent K V T)} {e : Expiring K V T} (k : K) :
      History e₀ past e → History e₀ (.remove k :: past) (Function.update e k none)
  | read {past : List (StoreEvent K V T)} {e e' : Expiring K V T} (k : K) (limit : T) :
      History e₀ past e → e.Drops limit e' →
      History e₀ (.read k limit (e.find limit k) :: past) e'
  | collect {past : List (StoreEvent K V T)} {e e' : Expiring K V T} (limit : T) :
      History e₀ past e → e.Drops limit e' → History e₀ (.collect limit :: past) e'

/-- Only entries before the limits are missing. -/
theorem History.drops (h : History e₀ past e)
    (hlimit : ∀ a ∈ past, ∀ l ∈ a.limit, l ≤ limit) :
    (written e₀ past).Drops limit e := by
  induction h with
  | start => exact .refl limit e₀
  | put k v t _ ih => exact (ih fun a ha => hlimit a (List.mem_cons_of_mem _ ha)).update k _
  | remove k _ ih => exact (ih fun a ha => hlimit a (List.mem_cons_of_mem _ ha)).update k _
  | read k l _ hdrops ih =>
    exact (ih fun a ha => hlimit a (List.mem_cons_of_mem _ ha)).trans
      (hdrops.mono (hlimit _ List.mem_cons_self l rfl))
  | collect l _ hdrops ih =>
    exact (ih fun a ha => hlimit a (List.mem_cons_of_mem _ ha)).trans
      (hdrops.mono (hlimit _ List.mem_cons_self l rfl))

/-- What a reader found is what it would find if nothing were dropped. -/
theorem History.found (h : History e₀ (later ++ .read k limit v :: before) e)
    (hlimit : ∀ a ∈ before, ∀ l ∈ a.limit, l ≤ limit) :
    v = (written e₀ before).find limit k := by
  generalize hpast : later ++ .read k limit v :: before = past at h
  induction h generalizing later with
  | start => simp at hpast
  | put k' v' t _ ih =>
    cases later with
    | nil => cases hpast
    | cons a later => exact ih (List.cons.inj hpast).2
  | remove k' _ ih =>
    cases later with
    | nil => cases hpast
    | cons a later => exact ih (List.cons.inj hpast).2
  | read k' l hpast' _ ih =>
    cases later with
    | nil =>
      obtain ⟨hevent, rfl⟩ := List.cons.inj hpast
      cases hevent
      exact (hpast'.drops hlimit).find_eq le_rfl k
    | cons a later => exact ih (List.cons.inj hpast).2
  | collect l _ _ ih =>
    cases later with
    | nil => cases hpast
    | cons a later => exact ih (List.cons.inj hpast).2

end Expiring

end PhpZookeeper.Theory
