import Mathlib.Data.List.Perm.Basic

/-!
# Cycles that run one after another

Clients read a value and leave one. When their cycles run one after another, each reads what the
one before it has left: `Serial v cs v'`, from the value `v` to the value `v'`. The values that are
read are then those that were left, each as often (`Serial.read_eq`), so two cycles that read one
value, which was left once, did not run one after another in any order.
-/

namespace PhpZookeeper.Theory

variable {V C : Type}

/-- The cycles run one after another, the first one from the value `v`, and the last one leaves
`v'`. A cycle has read `sees c`, and makes the value `v` into `leaves c v`. -/
inductive Serial (sees : C → V) (leaves : C → V → V) : V → List C → V → Prop where
  /-- No cycle. -/
  | nil {v : V} : Serial sees leaves v [] v
  /-- The first cycle has read the value there was. -/
  | cons {c : C} {cs : List C} {v v' : V} : sees c = v → Serial sees leaves (leaves c v) cs v' →
      Serial sees leaves v (c :: cs) v'

namespace Serial

variable {sees : C → V} {leaves : C → V → V} {c : C} {cs cs' : List C} {v v' : V}

/-- One more cycle. -/
theorem concat (h : Serial sees leaves v cs v') (hc : sees c = v') :
    Serial sees leaves v (cs ++ [c]) (leaves c v') := by
  induction h with
  | nil => exact .cons hc .nil
  | cons hsees _ ih => exact .cons hsees (ih hc)

/-- What is read is what was left: the values that are read, and the last one, are the first one
and those that the cycles leave. -/
theorem read_eq {left : C → V} (h : Serial sees leaves v cs v')
    (hleft : ∀ c ∈ cs, ∀ u, leaves c u = left c) : cs.map sees ++ [v'] = v :: cs.map left := by
  induction h with
  | nil => rfl
  | @cons c cs v v' hsees _ ih =>
    have hrest := ih fun c' hc' => hleft c' (List.mem_cons_of_mem c hc')
    rw [hleft c List.mem_cons_self] at hrest
    rw [List.map_cons, List.cons_append, hrest, hsees, List.map_cons]

/-- No value is read more often than it was left, in whatever order the cycles ran. -/
theorem count_read_le [DecidableEq V] {left : C → V} (h : Serial sees leaves v cs v')
    (hperm : cs.Perm cs') (hleft : ∀ c ∈ cs', ∀ u, leaves c u = left c) (x : V) :
    (cs'.map sees).count x ≤ (v :: cs'.map left).count x := by
  have heq := congrArg (List.count x) (h.read_eq fun c hc => hleft c (hperm.mem_iff.mp hc))
  rw [List.count_append, (hperm.map sees).count_eq, ((hperm.map left).cons v).count_eq] at heq
  exact heq ▸ Nat.le_add_right ..

end Serial

end PhpZookeeper.Theory
