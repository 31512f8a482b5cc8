import Mathlib.Algebra.Order.Ring.Nat
import Mathlib.Data.Int.Order.Basic
import Mathlib.Data.Nat.Dist
import Mathlib.Tactic.Ring

/-!
# Rounding to a number of significant bits

The conversion of an integer to a floating-point number whose significand has `p` bits and whose
exponent is large enough: the nearest integer with `p` significant bits, ties to even. `roundNat` is
computed from the quotient by the last place; that it is nearest (`roundNat_nearest`) and has `p`
bits (`hasSig_roundNat`) gives the numbers that are not changed (`roundEven_eq_self_iff`).
-/

namespace PhpZookeeper.Theory

/-- `n` has at most `p` significant bits. -/
def HasSig (p n : ℕ) : Prop := ∃ m e, m < 2 ^ p ∧ n = m * 2 ^ e

/-- `n / u`, rounded to the nearest, ties to even. -/
def roundDiv (n u : ℕ) : ℕ :=
  if 2 * (n % u) < u ∨ 2 * (n % u) = u ∧ n / u % 2 = 0 then n / u else n / u + 1

/-- How many bits of `n` are more than `p`. -/
def excess (p n : ℕ) : ℕ := n.log2 + 1 - p

/-- `n`, rounded to `p` significant bits. -/
def roundNat (p n : ℕ) : ℕ := roundDiv n (2 ^ excess p n) * 2 ^ excess p n

/-- `z`, rounded to `p` significant bits. -/
def roundEven (p : ℕ) (z : ℤ) : ℤ := z.sign * roundNat p z.natAbs

variable {p n m u : ℕ}

theorem HasSig.zero (p : ℕ) : HasSig p 0 := ⟨0, 0, Nat.two_pow_pos p, rfl⟩

/-! ### The nearest multiple -/

theorem roundDiv_le (n u : ℕ) : roundDiv n u ≤ n / u + 1 := by
  unfold roundDiv
  split <;> omega

/-- `roundDiv` gives the nearest multiple. -/
theorem dist_roundDiv_le (hu : 0 < u) (k : ℕ) :
    Nat.dist (roundDiv n u * u) n ≤ Nat.dist (k * u) n := by
  have hdiv := Nat.div_add_mod' n u
  have hmod := Nat.mod_lt n hu
  have hsucc : (n / u + 1) * u = n / u * u + u := Nat.succ_mul _ _
  unfold roundDiv Nat.dist
  rcases Nat.lt_or_ge (n / u) k with hk | hk
  · have hle : (n / u + 1) * u ≤ k * u := Nat.mul_le_mul_right u hk
    split <;> omega
  · have hle : k * u ≤ n / u * u := Nat.mul_le_mul_right u hk
    split <;> omega

/-! ### Significant bits -/

theorem lt_two_pow_excess (p n : ℕ) : n < 2 ^ (p + excess p n) :=
  Nat.lt_log2_self.trans_le (Nat.pow_le_pow_right (by decide) (by unfold excess; omega))

/-- A number that is rounded has at most `p` significant bits. -/
theorem hasSig_roundNat (hp : 0 < p) (n : ℕ) : HasSig p (roundNat p n) := by
  have hpos : 0 < 2 ^ excess p n := Nat.two_pow_pos _
  have hquot : n / 2 ^ excess p n < 2 ^ p := by
    rw [Nat.div_lt_iff_lt_mul hpos, ← pow_add]
    exact lt_two_pow_excess p n
  have hle : roundDiv n (2 ^ excess p n) ≤ 2 ^ p := (roundDiv_le _ _).trans hquot
  rcases Nat.lt_or_eq_of_le hle with hlt | heq
  · exact ⟨_, _, hlt, rfl⟩
  · -- the significand has become one bit longer
    refine ⟨1, p + excess p n, Nat.one_lt_two_pow hp.ne', ?_⟩
    rw [roundNat, heq, one_mul, pow_add]

/-- A number of at most `p` bits is not rounded. -/
theorem roundNat_of_excess (h : excess p n = 0) : roundNat p n = n := by
  simp [roundNat, h, roundDiv, Nat.mod_one]

/-- **The rounded number is nearest** of those with at most `p` significant bits. -/
theorem roundNat_nearest (hp : 0 < p) (hm : HasSig p m) :
    Nat.dist (roundNat p n) n ≤ Nat.dist m n := by
  obtain ⟨a, f, ha, rfl⟩ := hm
  have hpos : 0 < 2 ^ excess p n := Nat.two_pow_pos _
  rcases Nat.eq_zero_or_pos (excess p n) with hzero | hexcess
  · rw [roundNat_of_excess hzero, Nat.dist_self]
    exact Nat.zero_le _
  rcases Nat.lt_or_ge f (excess p n) with hf | hf
  · -- `m` is below the power of two at the front of `n`, which is a multiple of the last place
    have hn : n ≠ 0 := by
      rintro rfl
      simp [excess] at hexcess
      omega
    have hfront : 2 ^ (p - 1) * 2 ^ excess p n ≤ n := by
      have hlog : p - 1 + excess p n = n.log2 := by
        unfold excess at *
        omega
      rw [← pow_add, hlog]
      exact Nat.log2_self_le hn
    have hbelow : a * 2 ^ f ≤ 2 ^ (p - 1) * 2 ^ excess p n := by
      calc a * 2 ^ f ≤ 2 ^ p * 2 ^ f := Nat.mul_le_mul_right _ ha.le
        _ = 2 ^ (p - 1) * 2 ^ (f + 1) := by
          rw [← pow_add, ← pow_add]
          congr 1
          omega
        _ ≤ 2 ^ (p - 1) * 2 ^ excess p n :=
          Nat.mul_le_mul_left _ (Nat.pow_le_pow_right (by decide) hf)
    refine (dist_roundDiv_le hpos (2 ^ (p - 1))).trans ?_
    unfold Nat.dist
    omega
  · -- `m` is a multiple of the last place
    have hmultiple : a * 2 ^ f = a * 2 ^ (f - excess p n) * 2 ^ excess p n := by
      rw [mul_assoc, ← pow_add, Nat.sub_add_cancel hf]
    rw [hmultiple]
    exact dist_roundDiv_le hpos _

theorem roundNat_eq_self_iff (hp : 0 < p) : roundNat p n = n ↔ HasSig p n := by
  constructor
  · intro h
    rw [← h]
    exact hasSig_roundNat hp n
  · intro h
    have hdist : Nat.dist (roundNat p n) n ≤ Nat.dist n n := roundNat_nearest hp h
    rw [Nat.dist_self, Nat.le_zero] at hdist
    exact Nat.eq_of_dist_eq_zero hdist

/-- **The numbers that rounding does not change** are those with at most `p` significant bits. -/
theorem roundEven_eq_self_iff (hp : 0 < p) {z : ℤ} :
    roundEven p z = z ↔ HasSig p z.natAbs := by
  rw [← roundNat_eq_self_iff hp, roundEven]
  constructor
  · intro h
    rcases eq_or_ne z 0 with rfl | hz
    · exact (roundNat_eq_self_iff hp).mpr (HasSig.zero p)
    · have hsign : z.sign ≠ 0 := mt Int.sign_eq_zero_iff_zero.mp hz
      have hmul : z.sign * (roundNat p z.natAbs : ℤ) = z.sign * (z.natAbs : ℤ) := by
        rw [h, Int.sign_mul_natAbs]
      exact_mod_cast mul_left_cancel₀ hsign hmul
  · intro h
    rw [h, Int.sign_mul_natAbs]

end PhpZookeeper.Theory
