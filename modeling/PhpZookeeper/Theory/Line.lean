import PhpZookeeper.Theory.Tickets
import Mathlib.Data.List.Nodup
import Mathlib.Logic.Function.Basic

/-!
# A lock with a waiting line

Clients wait for a lock in a line, in the order in which they first try to take it, and the first of
the line has it. A client finds out only when it tries, and hands in its place only when it knows of
one. `Line.History` are the histories of such a lock: who has called what, and what was answered.

A ticket queue is a line when each client has one ticket (`TicketQueue.Lists`).
-/

namespace PhpZookeeper.Theory

variable {C : Type}

/-! ### Who stands in front -/

section InFront

variable [DecidableEq C] {l pre post : List C} {a c : C}

/-- The one that stands right in front of `c` in the list. -/
def inFrontOf (l : List C) (c : C) : Option C := (l.takeWhile (· ≠ c)).getLast?

theorem inFrontOf_append (h : c ∉ pre) : inFrontOf (pre ++ c :: post) c = pre.getLast? := by
  have hall : ∀ x ∈ pre, decide (x ≠ c) = true := fun x hx =>
    decide_eq_true fun heq => h (heq ▸ hx)
  rw [inFrontOf, List.takeWhile_append_of_pos hall, List.takeWhile_cons_of_neg (by simp),
    List.append_nil]

/-- Only the first has nobody in front. -/
theorem inFrontOf_eq_none_iff (hc : c ∈ l) : inFrontOf l c = none ↔ l.head? = some c := by
  obtain ⟨pre, post, rfl, hpre⟩ := List.eq_append_cons_of_mem hc
  rw [inFrontOf_append hpre, List.getLast?_eq_none_iff]
  cases pre with
  | nil => simp
  | cons x pre =>
    have hne : x ≠ c := fun heq => hpre (heq ▸ List.mem_cons_self)
    simp [hne]

/-- Who comes later stands behind. -/
theorem inFrontOf_append_right (hc : c ∈ l) : inFrontOf (l ++ post) c = inFrontOf l c := by
  obtain ⟨pre, rest, rfl, hpre⟩ := List.eq_append_cons_of_mem hc
  rw [List.append_assoc, List.cons_append, inFrontOf_append hpre, inFrontOf_append hpre]

/-- When another leaves than the one in front. -/
theorem inFrontOf_filter (hc : c ∈ l) (hca : c ≠ a) (ha : inFrontOf l c ≠ some a) :
    inFrontOf (l.filter (· ≠ a)) c = inFrontOf l c := by
  obtain ⟨pre, post, rfl, hpre⟩ := List.eq_append_cons_of_mem hc
  rw [inFrontOf_append hpre] at ha ⊢
  rw [List.filter_append, List.filter_cons_of_pos (by simpa using hca),
    inFrontOf_append fun hmem => hpre (List.mem_of_mem_filter hmem)]
  rcases List.eq_nil_or_concat' pre with rfl | ⟨init, b, rfl⟩
  · rfl
  · rw [List.getLast?_concat, ne_eq, Option.some.injEq] at ha
    rw [List.filter_append, List.filter_cons_of_pos (by simpa using ha)]
    simp

end InFront

/-! ### The line -/

/-- The calls of a client. -/
inductive LineCall where
  | init
  | lock
  | unlock
  | isowner
  deriving DecidableEq, Repr

/-- The clients that wait, the first one first; the clients that know of their place; and those that
have been told that they are the first. -/
structure Line (C : Type) where
  waiting : List C := []
  joined : C → Bool := fun _ => false
  told : C → Bool := fun _ => false

namespace Line

variable [DecidableEq C]

/-- The line after the client `c` has tried. -/
def tried (l : Line C) (c : C) : List C := if c ∈ l.waiting then l.waiting else l.waiting ++ [c]

/-- What a call answers, and the line it leaves: `lock` whether the client is the first, `unlock`
whether it knew of a place. -/
def answer (l : Line C) (c : C) : LineCall → Bool × Line C
  | .init =>
    (true, { l with
      joined := Function.update l.joined c false
      told := Function.update l.told c false })
  | .lock =>
    ((l.tried c).head? = some c, {
      waiting := l.tried c
      joined := Function.update l.joined c true
      told := Function.update l.told c ((l.tried c).head? = some c) })
  | .unlock =>
    if l.joined c then
      (true, {
        waiting := l.waiting.erase c
        joined := Function.update l.joined c false
        told := Function.update l.told c false })
    else
      (false, l)
  | .isowner => (l.told c, l)

/-- `History past l`: after the calls `past`, the last one first, with these answers, the line is
`l`. -/
inductive History : List (C × LineCall × Bool) → Line C → Prop where
  | start : History [] {}
  | call {past : List (C × LineCall × Bool)} {l : Line C} (c : C) (r : LineCall) :
      History past l → History ((c, r, (l.answer c r).1) :: past) (l.answer c r).2

/-- The line after the calls `past`, the last one first. -/
def after (past : List (C × LineCall × Bool)) : Line C :=
  past.foldr (fun e l => (l.answer e.1 e.2.1).2) {}

/-- The keys are in the order of the line as far as the client `c` is concerned: that of the one in
front of it is not greater than its own, and none behind it is smaller. -/
def InOrder {κ : Type} [LE κ] (l : Line C) (key : C → κ) (c : C) : Prop :=
  ∀ pre post, l.waiting = pre ++ c :: post →
    (∀ v, pre.getLast? = some v → key v ≤ key c) ∧ ∀ v ∈ post, key c ≤ key v

variable {l : Line C} {c c' : C} {r : LineCall}

theorem head?_tried : (l.tried c).head? = some (l.waiting.head?.getD c) := by
  unfold tried
  split_ifs with hmem
  · obtain ⟨a, rest, ha⟩ := List.exists_cons_of_ne_nil (List.ne_nil_of_mem hmem)
    simp [ha]
  · cases l.waiting <;> simp

theorem nodup_tried (h : l.waiting.Nodup) : (l.tried c).Nodup := by
  unfold tried
  split_ifs with hmem
  · exact h
  · exact List.nodup_append.mpr ⟨h, List.nodup_singleton c, fun a ha b hb hab => by
      rw [hab, List.mem_singleton.mp hb] at ha
      exact hmem ha⟩

/-- Nobody stands in the line twice. -/
theorem History.nodup {past : List (C × LineCall × Bool)} (h : History past l) :
    l.waiting.Nodup := by
  induction h with
  | start => exact List.nodup_nil
  | @call past l c r _ ih =>
    cases r with
    | init => exact ih
    | lock => exact nodup_tried ih
    | unlock =>
      simp only [answer]
      split_ifs
      · exact ih.erase c
      · exact ih
    | isowner => exact ih

/-- Who has been told that it is the first is the first. -/
theorem History.first_of_told {past : List (C × LineCall × Bool)} (h : History past l)
    (hc : l.told c = true) : l.waiting.head? = some c := by
  induction h with
  | start => cases hc
  | @call past l a r _ ih =>
    cases r with
    | init =>
      simp only [answer] at hc ⊢
      by_cases ha : c = a
      · simp [ha] at hc
      · rw [Function.update_of_ne ha] at hc
        exact ih hc
    | lock =>
      simp only [answer] at hc ⊢
      by_cases ha : c = a
      · subst ha
        simpa using hc
      · rw [Function.update_of_ne ha] at hc
        rw [head?_tried, ih hc]
        rfl
    | unlock =>
      simp only [answer] at hc ⊢
      split_ifs at hc ⊢
      · dsimp only at hc ⊢
        by_cases ha : c = a
        · simp [ha] at hc
        · rw [Function.update_of_ne ha] at hc
          obtain ⟨rest, hrest⟩ := List.head?_eq_some_iff.mp (ih hc)
          rw [hrest, List.erase_cons_tail (by simpa using ha)]
          rfl
      · exact ih hc
    | isowner => exact ih hc

/-- The calls determine the line. -/
theorem History.eq_after {past : List (C × LineCall × Bool)} (h : History past l) :
    l = after past := by
  induction h with
  | start => rfl
  | call c r _ ih => rw [after, List.foldr_cons, ← after, ← ih]

omit [DecidableEq C] in
/-- Keys in the order of the whole line. -/
theorem inOrder_of_pairwise {κ : Type} [LE κ] {key : C → κ}
    (h : l.waiting.Pairwise fun a b => key a ≤ key b) : l.InOrder key c := by
  intro pre post hl
  rw [hl, List.pairwise_append, List.pairwise_cons] at h
  obtain ⟨-, ⟨hpost, -⟩, hcross⟩ := h
  exact ⟨fun v hv => hcross v (List.mem_of_getLast? hv) c List.mem_cons_self, hpost⟩

/-- **At most one client has been told that it is the first.** -/
theorem History.told_unique {past : List (C × LineCall × Bool)} (h : History past l)
    (hc : l.told c = true) (hc' : l.told c' = true) : c = c' :=
  Option.some.inj ((h.first_of_told hc).symm.trans (h.first_of_told hc'))

end Line

/-! ### Ticket queues -/

namespace TicketQueue

variable {a c : C} {n : ℕ} {q q' : TicketQueue C} {l : List (C × ℕ)}

/-- A ticket that disappears is the acting client's, and the others stay. -/
theorem Step.left (h : Step a q q') (hn : (c, n) ∈ q.waiting) (hn' : (c, n) ∉ q'.waiting) :
    q'.waiting = q.waiting \ {(c, n)} := by
  cases h with
  | idle hw _ => exact absurd (hw ▸ hn) hn'
  | take k hk hw => exact absurd (hw ▸ Set.mem_insert_of_mem _ hn) hn'
  | leave k hw =>
    rw [hw] at hn' ⊢
    have heq : (c, n) = (a, k) := not_not.mp fun hne => hn' ⟨hn, hne⟩
    rw [heq]

/-- `l` lists the tickets in the order of their numbers. -/
structure Lists (q : TicketQueue C) (l : List (C × ℕ)) : Prop where
  mem : ∀ x, x ∈ l ↔ x ∈ q.waiting
  sorted : l.Pairwise fun x y => x.2 < y.2

namespace Lists

theorem congr (h : q.Lists l) (hw : q'.waiting = q.waiting) : q'.Lists l where
  mem x := by rw [h.mem, hw]
  sorted := h.sorted

/-- A ticket that is taken stands last. -/
theorem take (h : q.Lists l) (hstep : Step a q q') (hn : (c, n) ∈ q'.waiting)
    (hn' : (c, n) ∉ q.waiting) : q'.Lists (l ++ [(c, n)]) := by
  obtain ⟨rfl, hw, hlt⟩ := hstep.taken hn hn'
  refine ⟨fun x => ?_, ?_⟩
  · rw [List.mem_append, List.mem_singleton, h.mem, hw, Set.mem_insert_iff, or_comm]
  · refine List.pairwise_append.mpr ⟨h.sorted, List.pairwise_singleton .., fun x hx y hy => ?_⟩
    rw [List.mem_singleton.mp hy]
    exact hlt x.1 x.2 ((h.mem x).mp hx)

/-- A ticket that is handed in. -/
theorem leave [DecidableEq C] (h : q.Lists l) (hstep : Step a q q') (hn : (c, n) ∈ q.waiting)
    (hn' : (c, n) ∉ q'.waiting) : q'.Lists (l.filter (· ≠ (c, n))) where
  mem x := by
    rw [List.mem_filter, decide_eq_true_iff, h.mem, hstep.left hn hn']
    rfl
  sorted := h.sorted.filter _

end Lists

end TicketQueue

end PhpZookeeper.Theory
