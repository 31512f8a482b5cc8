import Mathlib.Data.Char
import Mathlib.Data.List.Sort
import Mathlib.Data.List.Infix
import Mathlib.Data.Nat.Basic
import Mathlib.Tactic.Ring
import Mathlib.Order.Compare
import Mathlib.Tactic.IntervalCases

/-!
# C strings

A C string is the list of its characters, without the terminating 0. This module has what
the library functions of `<string.h>` and `printf` do to such lists: the order of `strcmp`,
the part of a string after its last `c` (`strrchr`), the cut that a bounded buffer makes, and
numbers printed in a fixed number of digits. The order and the search are over any alphabet.
-/

namespace PhpZookeeper.Theory

/-- A C string, without its terminating 0. -/
abbrev CString := List Char

instance instLawfulBEqCString : LawfulBEq CString := inferInstance

/-! ### The order of `strcmp` -/

section Order

variable {α : Type} [LinearOrder α]

/-- `strcmp`: the sign of the difference at the first character where the strings differ. -/
def strcmp : List α → List α → Ordering
  | [], [] => .eq
  | [], _ :: _ => .lt
  | _ :: _, [] => .gt
  | a :: as, b :: bs => if a < b then .lt else if b < a then .gt else strcmp as bs

@[simp] theorem strcmp_self (a : List α) : strcmp a a = .eq := by
  induction a with
  | nil => rfl
  | cons x a ih => simp [strcmp, ih]

theorem strcmp_cons_self (x : α) (a b : List α) : strcmp (x :: a) (x :: b) = strcmp a b := by
  simp [strcmp]

theorem strcmp_eq_iff (a b : List α) : strcmp a b = .eq ↔ a = b := by
  constructor
  · intro h
    induction a generalizing b with
    | nil => cases b <;> simp_all [strcmp]
    | cons x a ih =>
      cases b with
      | nil => simp [strcmp] at h
      | cons y b =>
        simp only [strcmp] at h
        split_ifs at h with h₁ h₂
        rw [le_antisymm (not_lt.mp h₂) (not_lt.mp h₁), ih b h]
  · rintro rfl
    exact strcmp_self a

theorem strcmp_swap (a b : List α) : (strcmp a b).swap = strcmp b a := by
  induction a generalizing b with
  | nil => cases b <;> rfl
  | cons x a ih =>
    cases b with
    | nil => rfl
    | cons y b =>
      rcases lt_trichotomy x y with h | rfl | h
      · simp [strcmp, h, h.not_gt]
      · simp only [strcmp_cons_self, ih b]
      · simp [strcmp, h, h.not_gt]

/-- No two strings are incomparable. -/
theorem strcmp_total (a b : List α) : strcmp a b ≠ .gt ∨ strcmp b a ≠ .gt := by
  rw [← strcmp_swap a b]
  cases strcmp a b <;> simp

theorem strcmp_trans {a b c : List α} (hab : strcmp a b ≠ .gt) (hbc : strcmp b c ≠ .gt) :
    strcmp a c ≠ .gt := by
  induction a generalizing b c with
  | nil => cases c <;> simp [strcmp]
  | cons x a ih =>
    cases b with
    | nil => simp [strcmp] at hab
    | cons y b =>
      cases c with
      | nil => simp [strcmp] at hbc
      | cons z c =>
        rcases lt_trichotomy x y with hxy | rfl | hxy
        · rcases lt_trichotomy y z with hyz | rfl | hyz
          · simp [strcmp, hxy.trans hyz]
          · simp [strcmp, hxy]
          · simp [strcmp, hyz, hyz.not_gt] at hbc
        · rcases lt_trichotomy x z with hxz | rfl | hxz
          · simp [strcmp, hxz]
          · rw [strcmp_cons_self] at *
            exact ih hab hbc
          · simp [strcmp, hxz, hxz.not_gt] at hbc
        · simp [strcmp, hxy, hxy.not_gt] at hab

/-- Strings whose first parts have the same length compare by these parts, then by the
rest. -/
theorem strcmp_append {a b : List α} (h : a.length = b.length) (x y : List α) :
    strcmp (a ++ x) (b ++ y) = (strcmp a b).then (strcmp x y) := by
  induction a generalizing b with
  | nil =>
    obtain rfl : b = [] := List.length_eq_zero_iff.mp h.symm
    rfl
  | cons c a ih =>
    cases b with
    | nil => simp at h
    | cons d b =>
      simp only [List.cons_append, strcmp]
      split_ifs
      · rfl
      · rfl
      · exact ih (by simpa using h)

end Order

/-! ### The last occurrence of a character -/

section Last

variable {α : Type} [DecidableEq α]

/-- What follows the last `c`: `strrchr(s, c) + 1`, or `none` where `strrchr` gives `NULL`. -/
def afterLast (c : α) : List α → Option (List α)
  | [] => none
  | x :: s => match afterLast c s with
    | some r => some r
    | none => if x = c then some s else none

/-- What stands before the last `c`. -/
def beforeLast (c : α) : List α → Option (List α)
  | [] => none
  | x :: s => match beforeLast c s with
    | some r => some (x :: r)
    | none => if x = c then some [] else none

theorem afterLast_eq_none {c : α} {s : List α} (h : c ∉ s) : afterLast c s = none := by
  induction s with
  | nil => rfl
  | cons x s ih =>
    simp only [List.mem_cons, not_or] at h
    simp [afterLast, ih h.2, Ne.symm h.1]

theorem beforeLast_eq_none {c : α} {s : List α} (h : c ∉ s) : beforeLast c s = none := by
  induction s with
  | nil => rfl
  | cons x s ih =>
    simp only [List.mem_cons, not_or] at h
    simp [beforeLast, ih h.2, Ne.symm h.1]

@[simp] theorem afterLast_append {c : α} {s t : List α} (h : c ∉ t) :
    afterLast c (s ++ c :: t) = some t := by
  induction s with
  | nil => simp [afterLast, afterLast_eq_none h]
  | cons x s ih => simp [afterLast, ih]

@[simp] theorem beforeLast_append {c : α} {s t : List α} (h : c ∉ t) :
    beforeLast c (s ++ c :: t) = some s := by
  induction s with
  | nil => simp [beforeLast, beforeLast_eq_none h]
  | cons x s ih => simp [beforeLast, ih]

/-- A string with a `c` splits at the last one. -/
theorem exists_append_of_mem {c : α} {s : List α} (h : c ∈ s) : ∃ u t, s = u ++ c :: t ∧ c ∉ t := by
  induction s with
  | nil => simp at h
  | cons x s ih =>
    by_cases hs : c ∈ s
    · obtain ⟨u, t, rfl, ht⟩ := ih hs
      exact ⟨x :: u, t, rfl, ht⟩
    · obtain rfl : c = x := by simpa [hs] using h
      exact ⟨[], s, rfl, hs⟩

theorem beforeLast_eq_some_iff {c : α} {s u : List α} :
    beforeLast c s = some u ↔ ∃ t, s = u ++ c :: t ∧ c ∉ t := by
  constructor
  · intro h
    have hc : c ∈ s := by
      by_contra hc
      simp [beforeLast_eq_none hc] at h
    obtain ⟨u', t, rfl, ht⟩ := exists_append_of_mem hc
    rw [beforeLast_append ht, Option.some.injEq] at h
    exact ⟨t, by rw [h], ht⟩
  · rintro ⟨t, rfl, ht⟩
    exact beforeLast_append ht

/-- Two ways to split a string at its last `c` are one. -/
theorem append_cons_inj_of_notMem {c : α} {s s' t t' : List α} (ht : c ∉ t) (ht' : c ∉ t') :
    s ++ c :: t = s' ++ c :: t' ↔ s = s' ∧ t = t' := by
  constructor
  · intro h
    have ha := congrArg (afterLast c) h
    have hb := congrArg (beforeLast c) h
    rw [afterLast_append ht, afterLast_append ht'] at ha
    rw [beforeLast_append ht, beforeLast_append ht'] at hb
    exact ⟨Option.some.inj hb, Option.some.inj ha⟩
  · rintro ⟨rfl, rfl⟩
    rfl

omit [DecidableEq α] in
/-- A cut beyond the last `c` leaves what stands before it. -/
theorem take_append_cons {s t : List α} {c : α} {n : ℕ} (h : s.length < n) :
    (s ++ c :: t).take n = s ++ c :: t.take (n - s.length - 1) := by
  obtain ⟨m, rfl⟩ := Nat.exists_eq_add_of_lt h
  rw [List.take_append, List.take_of_length_le (by omega)]
  have : s.length + m + 1 - s.length = m + 1 := by omega
  simp [this]

/-- Strings with one suffix, cut inside or after the suffix, are one when their cuts are. -/
theorem take_append_suffix_inj {s s' t : List α} {c : α} {n : ℕ} (hc : c ∉ t)
    (hs : s.length < n) (hs' : s'.length < n)
    (h : (s ++ c :: t).take n = (s' ++ c :: t).take n) : s = s' := by
  rw [take_append_cons hs, take_append_cons hs'] at h
  exact ((append_cons_inj_of_notMem (fun hm => hc (List.mem_of_mem_take hm))
    (fun hm => hc (List.mem_of_mem_take hm))).mp h).1

end Last

/-! ### Numbers in a fixed number of digits -/

/-- The last `w` digits of `n` in base `b`, most significant first. -/
def fixedDigits (b : ℕ) : ℕ → ℕ → CString
  | 0, _ => []
  | w + 1, n => fixedDigits b w (n / b) ++ [Nat.digitChar (n % b)]

@[simp] theorem length_fixedDigits (b w n : ℕ) : (fixedDigits b w n).length = w := by
  induction w generalizing n with
  | zero => rfl
  | succ w ih => simp [fixedDigits, ih]

/-- Hexadecimal digits are in the order of their characters. -/
theorem digitChar_lt {m n : ℕ} (hn : n < 16) (h : m < n) : m.digitChar < n.digitChar := by
  have hm : m < 16 := h.trans hn
  interval_cases n <;> interval_cases m <;> decide

theorem digitChar_ne {c : Char} (hc : c ∉ "0123456789abcdef".toList) {n : ℕ} (hn : n < 16) :
    n.digitChar ≠ c := by
  rintro rfl
  revert hc
  interval_cases n <;> decide

/-- A character that is no hexadecimal digit is in no printed number. -/
theorem notMem_fixedDigits {b : ℕ} (hb : 0 < b) (hb' : b ≤ 16) {c : Char}
    (hc : c ∉ "0123456789abcdef".toList) (w n : ℕ) : c ∉ fixedDigits b w n := by
  induction w generalizing n with
  | zero => simp [fixedDigits]
  | succ w ih =>
    simp only [fixedDigits, List.mem_append, List.mem_singleton, not_or]
    exact ⟨ih _, (digitChar_ne hc ((Nat.mod_lt n hb).trans_le hb')).symm⟩

/-- **Numbers printed in the same number of digits compare as numbers.** -/
theorem strcmp_fixedDigits {b : ℕ} (hb : 0 < b) (hb' : b ≤ 16) {w m n : ℕ} (hm : m < b ^ w)
    (hn : n < b ^ w) : strcmp (fixedDigits b w m) (fixedDigits b w n) = compare m n := by
  induction w generalizing m n with
  | zero =>
    obtain rfl : m = 0 := by simpa using hm
    obtain rfl : n = 0 := by simpa using hn
    rfl
  | succ w ih =>
    have hm' : m / b < b ^ w := Nat.div_lt_of_lt_mul (by rwa [pow_succ, mul_comm] at hm)
    have hn' : n / b < b ^ w := Nat.div_lt_of_lt_mul (by rwa [pow_succ, mul_comm] at hn)
    have hmb := (Nat.mod_lt m hb).trans_le hb'
    have hnb := (Nat.mod_lt n hb).trans_le hb'
    have em := Nat.div_add_mod m b
    have en := Nat.div_add_mod n b
    rw [fixedDigits, fixedDigits, strcmp_append (by simp), ih hm' hn']
    rcases lt_trichotomy (m / b) (n / b) with h | h | h
    · have hlt : m < n := by
        have := Nat.mul_le_mul_left b (Nat.succ_le_of_lt h)
        have := Nat.mod_lt m hb
        rw [Nat.mul_succ] at *
        omega
      rw [compare_lt_iff_lt.mpr h, compare_lt_iff_lt.mpr hlt]
      rfl
    · rw [compare_eq_iff_eq.mpr h]
      rcases lt_trichotomy (m % b) (n % b) with h' | h' | h'
      · rw [compare_lt_iff_lt.mpr (by rw [← em, ← en, h]; omega)]
        simp [strcmp, digitChar_lt hnb h']
      · rw [compare_eq_iff_eq.mpr (by rw [← em, ← en, h, h']), h']
        simp
      · rw [compare_gt_iff_gt.mpr (by rw [← em, ← en, h]; omega)]
        simp [strcmp, digitChar_lt hmb h', (digitChar_lt hmb h').not_gt]
    · have hlt : n < m := by
        have := Nat.mul_le_mul_left b (Nat.succ_le_of_lt h)
        have := Nat.mod_lt n hb
        rw [Nat.mul_succ] at *
        omega
      rw [compare_gt_iff_gt.mpr h, compare_gt_iff_gt.mpr hlt]
      rfl

theorem fixedDigits_inj {b : ℕ} (hb : 0 < b) (hb' : b ≤ 16) {w m n : ℕ} (hm : m < b ^ w)
    (hn : n < b ^ w) : fixedDigits b w m = fixedDigits b w n ↔ m = n := by
  rw [← strcmp_eq_iff, strcmp_fixedDigits hb hb' hm hn, compare_eq_iff_eq]

end PhpZookeeper.Theory
