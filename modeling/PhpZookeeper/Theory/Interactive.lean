import Mathlib.Data.Nat.Notation
import Mathlib.Logic.Basic

/-!
# Interactive programs

A program that reads and writes the world only through *operations*: it ends with
a value, or performs an operation and goes on with the operation's result, or goes
round a loop. A loop is not unrolled, so a program that may go round forever is
still a finite piece of syntax, and a loop that never ends is a program without a
run.

`Run sem p s tr a s'` is the sequential semantics: `p`, started in the state `s`,
performs exactly the operations `tr`, returns `a` and leaves the state `s'`, where
`sem` says what one operation may do. The concurrent semantics, in which other
programs act between two operations, is in `RelyGuarantee`.
-/

namespace PhpZookeeper.Theory

/-- A program with the operations `Op`, whose operation `o` gives a `Res o`. -/
inductive Prog {Op : Type} (Res : Op → Type) : Type → Type 1 where
  /-- The program has ended. -/
  | ret {α : Type} (a : α) : Prog Res α
  /-- Perform `o`, and go on with its result. -/
  | op {α : Type} (o : Op) (k : Res o → Prog Res α) : Prog Res α
  /-- Go round `body` while it says `inl`, then go on with what it says. -/
  | iter {α β γ : Type} (body : β → Prog Res (β ⊕ γ)) (b : β) (k : γ → Prog Res α) : Prog Res α

namespace Prog

variable {Op : Type} {Res : Op → Type} {α β γ : Type}

/-- First `p`, then `f` of its result. -/
def bind {α β : Type} : Prog Res α → (α → Prog Res β) → Prog Res β
  | .ret a, f => f a
  | .op o k, f => .op o fun r => (k r).bind f
  | .iter body b k, f => .iter body b fun c => (k c).bind f

instance : Monad (Prog Res) where
  pure := .ret
  bind := .bind

@[simp] theorem pure_eq (a : α) : (pure a : Prog Res α) = .ret a := rfl

@[simp] theorem bind_eq (p : Prog Res α) (f : α → Prog Res β) : p >>= f = p.bind f := rfl

@[simp] theorem ret_bind (a : α) (f : α → Prog Res β) : (Prog.ret a).bind f = f a := rfl

@[simp] theorem op_bind (o : Op) (k : Res o → Prog Res α) (f : α → Prog Res β) :
    (Prog.op o k).bind f = .op o fun r => (k r).bind f := rfl

@[simp] theorem iter_bind {δ : Type} (body : δ → Prog Res (δ ⊕ γ)) (d : δ) (k : γ → Prog Res α)
    (f : α → Prog Res β) : (Prog.iter body d k).bind f = .iter body d fun c => (k c).bind f := rfl

theorem bind_assoc (p : Prog Res α) (f : α → Prog Res β) (g : β → Prog Res γ) :
    (p.bind f).bind g = p.bind fun a => (f a).bind g := by
  induction p with
  | ret a => rfl
  | op o k ih => simp only [op_bind, ih]
  | iter body b k _ ih => simp only [iter_bind, ih]

/-- Perform one operation. -/
def perform (o : Op) : Prog Res (Res o) := .op o .ret

@[simp] theorem perform_bind (o : Op) (f : Res o → Prog Res α) : (perform o).bind f = .op o f := rfl

/-- The loop that goes round `body` while it says `inl`. -/
def loop (body : β → Prog Res (β ⊕ γ)) (b : β) : Prog Res γ := .iter body b .ret

@[simp] theorem loop_bind (body : β → Prog Res (β ⊕ γ)) (b : β) (f : γ → Prog Res α) :
    (loop body b).bind f = .iter body b f := rfl

/-- `while (cond) body`, with the loop variables `b`; the condition is tested before the first
round and at the end of each round. -/
def whileLoop (cond : β → Bool) (body : β → Prog Res β) (b : β) : Prog Res β :=
  if cond b then
    loop (fun b => (body b).bind fun b' => .ret (if cond b' then .inl b' else .inr b')) b
  else
    .ret b

/-- What follows one round of a loop: another round, or the rest. -/
def again (body : β → Prog Res (β ⊕ γ)) (k : γ → Prog Res α) : β ⊕ γ → Prog Res α
  | .inl b => .iter body b k
  | .inr c => k c

@[simp] theorem again_inl (body : β → Prog Res (β ⊕ γ)) (k : γ → Prog Res α) (b : β) :
    again body k (.inl b) = .iter body b k := rfl

@[simp] theorem again_inr (body : β → Prog Res (β ⊕ γ)) (k : γ → Prog Res α) (c : γ) :
    again body k (.inr c) = k c := rfl

/-- One round of a loop and what follows, with more to do after the loop. -/
theorem bind_again_bind (body : β → Prog Res (β ⊕ γ)) (b : β) (k : γ → Prog Res α)
    {δ : Type} (f : α → Prog Res δ) :
    ((body b).bind (again body k)).bind f = (body b).bind (again body fun c => (k c).bind f) := by
  rw [bind_assoc]
  congr 1
  funext x
  cases x <;> rfl

/-- The operation the program is about to perform. -/
def next : Prog Res α → Option Op
  | .op o _ => some o
  | _ => none

@[simp] theorem next_op (o : Op) (k : Res o → Prog Res α) : (Prog.op o k).next = some o := rfl

@[simp] theorem next_ret (a : α) : (Prog.ret a : Prog Res α).next = none := rfl

@[simp] theorem next_iter (body : β → Prog Res (β ⊕ γ)) (b : β) (k : γ → Prog Res α) :
    (Prog.iter body b k).next = none := rfl

/-! ### Sequential runs -/

/-- `Run sem p s tr a s'`: from the state `s`, `p` performs the operations `tr`, returns
`a` and leaves the state `s'`. -/
inductive Run {S : Type} (sem : (o : Op) → S → Res o → S → Prop) :
    {α : Type} → Prog Res α → S → List Op → α → S → Prop where
  /-- The program has ended. -/
  | ret {α : Type} {a : α} {s : S} : Run sem (.ret a) s [] a s
  /-- One operation, then the rest. -/
  | op {α : Type} {o : Op} {k : Res o → Prog Res α} {s s₁ s' : S} {r : Res o} {tr : List Op}
      {a : α} :
      sem o s r s₁ → Run sem (k r) s₁ tr a s' → Run sem (.op o k) s (o :: tr) a s'
  /-- One round, then what follows it. -/
  | iter {α β γ : Type} {body : β → Prog Res (β ⊕ γ)} {b : β} {k : γ → Prog Res α} {s s' : S}
      {tr : List Op} {a : α} :
      Run sem ((body b).bind (again body k)) s tr a s' → Run sem (.iter body b k) s tr a s'

variable {S : Type} {sem : (o : Op) → S → Res o → S → Prop} {s s' : S} {tr : List Op} {a : α}

theorem run_ret_iff {c : α} : Run sem (.ret c) s tr a s' ↔ tr = [] ∧ a = c ∧ s' = s := by
  constructor
  · intro h
    cases h
    exact ⟨rfl, rfl, rfl⟩
  · rintro ⟨rfl, rfl, rfl⟩
    exact .ret

theorem run_op_iff {o : Op} {k : Res o → Prog Res α} :
    Run sem (.op o k) s tr a s' ↔
      ∃ r s₁ tr', sem o s r s₁ ∧ Run sem (k r) s₁ tr' a s' ∧ tr = o :: tr' := by
  constructor
  · intro h
    cases h with
    | op hs hk => exact ⟨_, _, _, hs, hk, rfl⟩
  · rintro ⟨r, s₁, tr', hs, hk, rfl⟩
    exact .op hs hk

theorem run_iter_iff {body : β → Prog Res (β ⊕ γ)} {b : β} {k : γ → Prog Res α} :
    Run sem (.iter body b k) s tr a s' ↔ Run sem ((body b).bind (again body k)) s tr a s' := by
  constructor
  · intro h
    cases h with
    | iter h => exact h
  · exact .iter

/-- A run of `p` followed by a run of the rest is a run of both. -/
theorem Run.bind {p : Prog Res β} {f : β → Prog Res α} {c : β} {s₁ : S} {tr₁ tr₂ : List Op}
    (hp : Run sem p s tr₁ c s₁) (hf : Run sem (f c) s₁ tr₂ a s') :
    Run sem (p.bind f) s (tr₁ ++ tr₂) a s' := by
  induction hp with
  | ret => exact hf
  | op hs _ ih => exact .op hs (ih hf)
  | iter _ ih =>
    refine .iter ?_
    rw [← bind_again_bind]
    exact ih hf

/-- A run of `p` and the rest passes through a state in which `p` has returned. -/
theorem Run.of_bind {p : Prog Res β} {f : β → Prog Res α} (h : Run sem (p.bind f) s tr a s') :
    ∃ c s₁ tr₁ tr₂, Run sem p s tr₁ c s₁ ∧ Run sem (f c) s₁ tr₂ a s' ∧ tr = tr₁ ++ tr₂ := by
  generalize hq : p.bind f = q at h
  induction h generalizing β with
  | @ret a s =>
    cases p with
    | ret c => exact ⟨c, s, [], [], .ret, (by rw [← ret_bind c f, hq]; exact .ret), rfl⟩
    | op o k => cases hq
    | iter body b k => cases hq
  | @op o k s s₁ s' r tr a hs hk ih =>
    cases p with
    | ret c => exact ⟨c, s, [], _, .ret, (by rw [← ret_bind c f, hq]; exact .op hs hk), rfl⟩
    | op o' k' =>
      simp only [op_bind, op.injEq] at hq
      obtain ⟨rfl, hk'⟩ := hq
      obtain ⟨c, s₂, tr₁, tr₂, h₁, h₂, rfl⟩ := ih (p := k' r) (f := f) (by rw [← eq_of_heq hk'])
      exact ⟨c, s₂, o' :: tr₁, tr₂, .op hs h₁, h₂, rfl⟩
    | iter body b k' => cases hq
  | @iter β' γ' body b k s s' tr a hb ih =>
    cases p with
    | ret c => exact ⟨c, s, [], _, .ret, (by rw [← ret_bind c f, hq]; exact .iter hb), rfl⟩
    | op o' k' => cases hq
    | iter body' b' k' =>
      simp only [iter_bind, iter.injEq] at hq
      obtain ⟨rfl, rfl, hbody, hb', hk'⟩ := hq
      cases hbody
      cases hb'
      cases hk'
      obtain ⟨c, s₁, tr₁, tr₂, h₁, h₂, rfl⟩ :=
        ih (p := (body' b').bind (again body' k')) (f := f) (by
          exact bind_again_bind body' b' k' f)
      exact ⟨c, s₁, tr₁, tr₂, .iter h₁, h₂, rfl⟩

theorem run_bind_iff {p : Prog Res β} {f : β → Prog Res α} :
    Run sem (p.bind f) s tr a s' ↔
      ∃ c s₁ tr₁ tr₂, Run sem p s tr₁ c s₁ ∧ Run sem (f c) s₁ tr₂ a s' ∧ tr = tr₁ ++ tr₂ := by
  refine ⟨Run.of_bind, ?_⟩
  rintro ⟨c, s₁, tr₁, tr₂, h₁, h₂, rfl⟩
  exact h₁.bind h₂

/-- When an operation has at most one outcome, a program has at most one run. -/
theorem Run.det (hdet : ∀ o s r r' s₁ s₂, sem o s r s₁ → sem o s r' s₂ → r = r' ∧ s₁ = s₂)
    {p : Prog Res α} {tr' : List Op} {a' : α} {s'' : S} (h : Run sem p s tr a s')
    (h' : Run sem p s tr' a' s'') : tr = tr' ∧ a = a' ∧ s' = s'' := by
  induction h generalizing tr' s'' with
  | ret =>
    obtain ⟨rfl, rfl, rfl⟩ := run_ret_iff.mp h'
    exact ⟨rfl, rfl, rfl⟩
  | op hs _ ih =>
    obtain ⟨r', s₂, tr₂, hs', hk', rfl⟩ := run_op_iff.mp h'
    obtain ⟨rfl, rfl⟩ := hdet _ _ _ _ _ _ hs hs'
    obtain ⟨rfl, rfl, rfl⟩ := ih hk'
    exact ⟨rfl, rfl, rfl⟩
  | iter _ ih => exact ih (run_iter_iff.mp h')

/-! ### What a program returns -/

/-- From the state `s`, `p` can return `a` and leave the state `s'`. -/
def Returns (sem : (o : Op) → S → Res o → S → Prop) (p : Prog Res α) (s : S) (a : α) (s' : S) :
    Prop :=
  ∃ tr, Run sem p s tr a s'

@[simp] theorem returns_ret_iff {c : α} : Returns sem (.ret c) s a s' ↔ a = c ∧ s' = s := by
  simp [Returns, run_ret_iff]

@[simp] theorem returns_op_iff {o : Op} {k : Res o → Prog Res α} :
    Returns sem (.op o k) s a s' ↔ ∃ r s₁, sem o s r s₁ ∧ Returns sem (k r) s₁ a s' := by
  simp only [Returns, run_op_iff]
  constructor
  · rintro ⟨_, r, s₁, tr, hs, hk, rfl⟩
    exact ⟨r, s₁, hs, tr, hk⟩
  · rintro ⟨r, s₁, hs, tr, hk⟩
    exact ⟨_, r, s₁, tr, hs, hk, rfl⟩

theorem returns_iter_iff {body : β → Prog Res (β ⊕ γ)} {b : β} {k : γ → Prog Res α} :
    Returns sem (.iter body b k) s a s' ↔ Returns sem ((body b).bind (again body k)) s a s' := by
  simp only [Returns, run_iter_iff]

@[simp] theorem returns_bind_iff {p : Prog Res β} {f : β → Prog Res α} :
    Returns sem (p.bind f) s a s' ↔ ∃ c s₁, Returns sem p s c s₁ ∧ Returns sem (f c) s₁ a s' := by
  simp only [Returns, run_bind_iff]
  constructor
  · rintro ⟨_, c, s₁, tr₁, tr₂, h₁, h₂, -⟩
    exact ⟨c, s₁, ⟨tr₁, h₁⟩, tr₂, h₂⟩
  · rintro ⟨c, s₁, ⟨tr₁, h₁⟩, tr₂, h₂⟩
    exact ⟨_, c, s₁, tr₁, tr₂, h₁, h₂, rfl⟩

/-! ### Evaluation -/

/-- The run of a program whose operations are evaluated by `perform`, if it takes at most `n`
steps. -/
def exec {S : Type} (perform : (o : Op) → S → Option (Res o × S)) :
    ℕ → Prog Res α → S → Option (α × S)
  | _, .ret a, s => some (a, s)
  | 0, _, _ => none
  | n + 1, .op o k, s =>
    match perform o s with
    | some (r, s') => exec perform n (k r) s'
    | none => none
  | n + 1, .iter body b k, s => exec perform n ((body b).bind (again body k)) s

theorem returns_of_exec {perform : (o : Op) → S → Option (Res o × S)}
    (hp : ∀ o s r s', perform o s = some (r, s') → sem o s r s') {n : ℕ} {p : Prog Res α}
    (h : exec perform n p s = some (a, s')) : Returns sem p s a s' := by
  induction n generalizing p s with
  | zero =>
    cases p with
    | ret c =>
      obtain ⟨rfl, rfl⟩ := Prod.mk.inj (Option.some.inj h)
      exact returns_ret_iff.mpr ⟨rfl, rfl⟩
    | op o k => simp [exec] at h
    | iter body b k => simp [exec] at h
  | succ n ih =>
    cases p with
    | ret c =>
      obtain ⟨rfl, rfl⟩ := Prod.mk.inj (Option.some.inj h)
      exact returns_ret_iff.mpr ⟨rfl, rfl⟩
    | op o k =>
      simp only [exec] at h
      split at h
      · next r s₁ heq => exact returns_op_iff.mpr ⟨r, s₁, hp _ _ _ _ heq, ih h⟩
      · cases h
    | iter body b k => exact returns_iter_iff.mpr (ih h)

end Prog

end PhpZookeeper.Theory
