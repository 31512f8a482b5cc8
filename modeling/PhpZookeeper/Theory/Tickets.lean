import Mathlib.Data.Set.Insert
import Mathlib.Order.Lattice

/-!
# Ticket queues

Clients take numbered tickets from a dispenser that never goes back, unless nobody holds one. The
client with the least number is served, and stays so until it hands its ticket in; at most one
client is served.

A client may look at the queue as it was a while ago (`Before`): it finds out rightly that it is
served, as long as it has seen its own ticket.
-/

namespace PhpZookeeper.Theory

/-- Clients `C`, each with any number of tickets. -/
structure TicketQueue (C : Type) where
  /-- No ticket has this number or a larger one. -/
  next : ℕ
  waiting : Set (C × ℕ)
  lt_next : ∀ {c n}, (c, n) ∈ waiting → n < next
  unique : ∀ {c c' n}, (c, n) ∈ waiting → (c', n) ∈ waiting → c = c'

namespace TicketQueue

variable {C : Type} {a c c' : C} {m n : ℕ} {q q' q₀ : TicketQueue C}

/-- Nobody waits. -/
def empty : TicketQueue C where
  next := 0
  waiting := ∅
  lt_next h := h.elim
  unique h := h.elim

/-- The ticket `n` of the client `c` is the next to be served. -/
def Served (q : TicketQueue C) (c : C) (n : ℕ) : Prop :=
  (c, n) ∈ q.waiting ∧ ∀ c' m, (c', m) ∈ q.waiting → n ≤ m

/-- **At most one client is served.** -/
theorem Served.unique (h : q.Served c n) (h' : q.Served c' m) : c = c' ∧ n = m := by
  obtain rfl : n = m := le_antisymm (h.2 c' m h'.1) (h'.2 c n h.1)
  exact ⟨q.unique h.1 h'.1, rfl⟩

/-- What the client `a` can do to a queue. -/
inductive Step (a : C) (q q' : TicketQueue C) : Prop where
  /-- Numbers are used up; or nobody waits, and the dispenser is another one. -/
  | idle : q'.waiting = q.waiting → q.next ≤ q'.next ∨ q.waiting = ∅ → Step a q q'
  | take (n : ℕ) : q.next ≤ n → q'.waiting = insert (a, n) q.waiting → Step a q q'
  | leave (n : ℕ) : q'.waiting = q.waiting \ {(a, n)} → Step a q q'

namespace Step

/-- A ticket that appears is the acting client's, and has a larger number than the others. -/
theorem taken (h : Step a q q') (hn : (c, n) ∈ q'.waiting) (hn' : (c, n) ∉ q.waiting) :
    c = a ∧ q'.waiting = insert (a, n) q.waiting ∧ ∀ c' m, (c', m) ∈ q.waiting → m < n := by
  cases h with
  | idle hw _ => exact absurd (hw ▸ hn) hn'
  | take k hk hw =>
    rw [hw, Set.mem_insert_iff] at hn
    obtain ⟨rfl, rfl⟩ := Prod.mk.inj (hn.resolve_right hn')
    exact ⟨rfl, hw, fun c' m hm => (q.lt_next hm).trans_le hk⟩
  | leave k hw =>
    rw [hw] at hn
    exact absurd hn.1 hn'

/-- A ticket that appears has a number that was not used up. -/
theorem next_le (h : Step a q q') (hn : (c, n) ∈ q'.waiting) (hn' : (c, n) ∉ q.waiting) :
    q.next ≤ n := by
  cases h with
  | idle hw _ => exact absurd (hw ▸ hn) hn'
  | take k hk hw =>
    rw [hw, Set.mem_insert_iff] at hn
    exact hk.trans_eq (Prod.mk.inj (hn.resolve_right hn')).2.symm
  | leave k hw =>
    rw [hw] at hn
    exact absurd hn.1 hn'

/-- A client that is served is served until its ticket is handed in. -/
theorem served (h : Step a q q') (hs : q.Served c n) (hn : (c, n) ∈ q'.waiting) :
    q'.Served c n := by
  refine ⟨hn, fun c' m hm => ?_⟩
  by_cases hold : (c', m) ∈ q.waiting
  · exact hs.2 c' m hold
  · exact ((h.taken hm hold).2.2 c n hs.1).le

/-- Others do not touch a client's tickets. -/
theorem mem_iff_of_ne (h : Step a q q') (hne : c ≠ a) :
    (c, n) ∈ q'.waiting ↔ (c, n) ∈ q.waiting := by
  cases h with
  | idle hw _ => rw [hw]
  | take k hk hw => simp [hw, hne]
  | leave k hw => simp [hw, hne]

/-- **No overtaking**: nobody comes before a ticket that waits. -/
theorem mem_of_lt (h : Step a q q') (hn : (c, n) ∈ q.waiting) (hm : (c', m) ∈ q'.waiting)
    (hlt : m < n) : (c', m) ∈ q.waiting := by
  by_contra hold
  exact absurd ((h.taken hm hold).2.2 c n hn) hlt.not_gt

end Step

/-! ### Looking at the queue as it was -/

/-- `q` has all that is before a ticket of `c` in the later queue `q'`. -/
def Before (c : C) (q q' : TicketQueue C) : Prop :=
  ∀ n c' m, (c, n) ∈ q.waiting → (c, n) ∈ q'.waiting → (c', m) ∈ q'.waiting → m < n →
    (c', m) ∈ q.waiting

theorem Before.of_waiting_eq (h : q.waiting = q'.waiting) : Before c q q' :=
  fun _ _ _ _ _ hm _ => h ▸ hm

/-- The queue before another client's step. -/
theorem Before.step (h : Before c q₀ q) (hs : Step a q q') (hne : c ≠ a) : Before c q₀ q' := by
  intro n c' m hn hn' hm hlt
  rw [hs.mem_iff_of_ne hne] at hn'
  exact h n c' m hn hn' (hs.mem_of_lt hn' hm hlt) hlt

/-- A client that was served is served, when it still waits. -/
theorem Before.served (h : Before c q q') (hs : q.Served c n) (hn : (c, n) ∈ q'.waiting) :
    q'.Served c n := by
  refine ⟨hn, fun c' m hm => le_of_not_gt fun hlt => ?_⟩
  exact absurd (hs.2 c' m (h n c' m hs.1 hn hm hlt)) hlt.not_ge

end TicketQueue

end PhpZookeeper.Theory
