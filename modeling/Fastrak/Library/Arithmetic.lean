import Fastrak.Library.Rounding
import Mathlib.Algebra.Order.Field.Power
import Mathlib.Data.Int.Log

/-!
# Arithmetic that rounds its results

An `Arithmetic` computes each sum, difference, product and quotient exactly and then rounds
it. `Arithmetic.exact` does not round, and `Arithmetic.double` rounds to the nearest number of
the format binary64, as the floats of Python do. A float is given by the rational that it
stands for.

The doubles are taken without their upper end: no result overflows.
-/

namespace Fastrak

/-- How the result of an operation is rounded. -/
structure Arithmetic where
  round : ℚ → ℚ
  mono : Monotone round
  round_zero : round 0 = 0
  round_round : ∀ x, round (round x) = round x

namespace Arithmetic

variable (ar : Arithmetic) {x y : ℚ}

def add (x y : ℚ) : ℚ := ar.round (x + y)

def sub (x y : ℚ) : ℚ := ar.round (x - y)

def mul (x y : ℚ) : ℚ := ar.round (x * y)

def div (x y : ℚ) : ℚ := ar.round (x / y)

/-- The terms are added up one after the other. -/
def sum (xs : List ℚ) : ℚ := xs.foldl ar.add 0

@[simp] theorem add_zero_zero : ar.add 0 0 = 0 := by rw [add, add_zero, ar.round_zero]

@[simp] theorem sub_zero_zero : ar.sub 0 0 = 0 := by rw [sub, sub_zero, ar.round_zero]

theorem add_zero_of_round_eq (h : ar.round x = x) : ar.add x 0 = x := by rw [add, add_zero, h]

theorem round_nonneg (h : 0 ≤ x) : 0 ≤ ar.round x := ar.round_zero ▸ ar.mono h

theorem add_nonneg (hx : 0 ≤ x) (hy : 0 ≤ y) : 0 ≤ ar.add x y :=
  ar.round_nonneg (Rat.add_nonneg hx hy)

theorem mul_nonneg (hx : 0 ≤ x) (hy : 0 ≤ y) : 0 ≤ ar.mul x y :=
  ar.round_nonneg (Rat.mul_nonneg hx hy)

theorem div_nonneg (hx : 0 ≤ x) (hy : 0 ≤ y) : 0 ≤ ar.div x y :=
  ar.round_nonneg (by positivity)

theorem mul_le_mul_right (hxy : x ≤ y) {z : ℚ} (hz : 0 ≤ z) : ar.mul x z ≤ ar.mul y z :=
  ar.mono (mul_le_mul_of_nonneg_right hxy hz)

/-- Up to a bound, a result is at most the given error away from the exact one. -/
def ErrsAtMost (error bound : ℚ) : Prop := ∀ x, |x| ≤ bound → |ar.round x - x| ≤ error

theorem ErrsAtMost.near {ar : Arithmetic} {error error' bound : ℚ} {digits : ℕ} {n : ℤ}
    (har : ar.ErrsAtMost error bound) (hx : Rounding.Near digits error' x n) (hle : |x| ≤ bound) :
    Rounding.Near digits (error + error') (ar.round x) n :=
  (abs_sub_le _ x _).trans (add_le_add (har x hle) hx)

/-- The integers up to a bound are results. -/
def KeepsIntegers (bound : ℚ) : Prop := ∀ n : ℤ, |(n : ℚ)| ≤ bound → ar.round n = n

/-- Up to the bound, adding one whole number after the other loses nothing. -/
theorem KeepsIntegers.foldl_add {ar : Arithmetic} {bound : ℚ} (har : ar.KeepsIntegers bound)
    {xs : List ℚ} (hxs : ∀ x ∈ xs, 0 ≤ x ∧ ∃ n : ℤ, x = n) (m : ℤ)
    (hle : |(m : ℚ)| + xs.sum ≤ bound) : xs.foldl ar.add m = m + xs.sum := by
  induction xs generalizing m with
  | nil => simp
  | cons x xs ih =>
      obtain ⟨⟨hx, n, rfl⟩, htail⟩ := List.forall_mem_cons.mp hxs
      rw [List.sum_cons] at hle
      have hrest : 0 ≤ xs.sum := List.sum_nonneg fun x hx => (htail x hx).1
      have habs := abs_add_le (m : ℚ) n
      rw [abs_of_nonneg hx] at habs
      have hadd : ar.add m n = ((m + n : ℤ) : ℚ) := by
        rw [add, ← Int.cast_add]
        exact har (m + n) (by push_cast; linarith)
      rw [List.foldl_cons, hadd, ih htail (m + n) (by push_cast; linarith), List.sum_cons]
      push_cast
      ring

/-! ## Exact results -/

def exact : Arithmetic := ⟨id, monotone_id, rfl, fun _ => rfl⟩

theorem exact_errsAtMost (bound : ℚ) : exact.ErrsAtMost 0 bound := by
  intro x _
  simp [exact]

@[simp] theorem exact_round (x : ℚ) : exact.round x = x := rfl

@[simp] theorem exact_add (x y : ℚ) : exact.add x y = x + y := rfl

@[simp] theorem exact_sub (x y : ℚ) : exact.sub x y = x - y := rfl

@[simp] theorem exact_mul (x y : ℚ) : exact.mul x y = x * y := rfl

@[simp] theorem exact_div (x y : ℚ) : exact.div x y = x / y := rfl

@[simp] theorem exact_sum (xs : List ℚ) : exact.sum xs = xs.sum := List.sum_eq_foldl.symm

end Arithmetic

/-! ## Doubles -/

namespace Double

variable {x y : ℚ}

/-- The exponent of the last binary digit that a double near `x` has. -/
def exponent (x : ℚ) : ℤ := max (Int.log 2 |x| - 52) (-1074)

/-- The double nearest to `x`, the one with an even last digit at a tie. -/
def round (x : ℚ) : ℚ := Rounding.halfEven (x / 2 ^ exponent x) * 2 ^ exponent x

theorem round_zero : round 0 = 0 := by simp [round, Rounding.halfEven]

theorem exponent_neg (x : ℚ) : exponent (-x) = exponent x := by rw [exponent, abs_neg, exponent]

theorem round_neg (x : ℚ) : round (-x) = -round x := by
  rw [round, exponent_neg, neg_div, Rounding.halfEven_neg, Int.cast_neg, neg_mul, round]

/-- A number has 53 binary digits at most from its last one on. -/
theorem abs_lt_zpow_exponent (x : ℚ) : |x| < 2 ^ (exponent x + 53) := by
  have hlog : |x| < ((2 : ℕ) : ℚ) ^ (Int.log 2 |x| + 1) :=
    Int.lt_zpow_succ_log_self Nat.one_lt_two |x|
  have hle : Int.log 2 |x| + 1 ≤ exponent x + 53 := by
    have := le_max_left (Int.log 2 |x| - 52) (-1074)
    rw [exponent]
    omega
  exact_mod_cast hlog.trans_le (zpow_le_zpow_right₀ (by norm_num) hle)

theorem exponent_mono (hx : 0 < x) (hxy : x ≤ y) : exponent x ≤ exponent y := by
  have hlog : Int.log 2 |x| ≤ Int.log 2 |y| := by
    rw [abs_of_pos hx, abs_of_pos (hx.trans_le hxy)]
    exact Int.log_mono_right hx hxy
  exact max_le_max (by omega) le_rfl

/-- A number whose exponent is not the smallest one has all its digits. -/
theorem zpow_le_of_lt_exponent (hx : 0 < x) (he : -1074 < exponent x) :
    2 ^ (exponent x + 52) ≤ x := by
  have hlog : exponent x + 52 = Int.log 2 x := by
    rw [exponent, abs_of_pos hx] at he ⊢
    rcases lt_max_iff.mp he with h | h
    · rw [max_eq_left h.le]
      ring
    · exact absurd h (lt_irrefl _)
  rw [hlog]
  exact_mod_cast Int.zpow_log_le_self Nat.one_lt_two hx

theorem round_nonneg (hx : 0 ≤ x) : 0 ≤ round x := by
  refine mul_nonneg (Int.cast_nonneg (Rounding.halfEven_nonneg_iff.mpr ?_)) (by positivity)
  have : 0 ≤ x / 2 ^ exponent x := by positivity
  linarith

theorem round_le_round_of_pos (hx : 0 < x) (hxy : x ≤ y) : round x ≤ round y := by
  have hpos : ∀ e : ℤ, (0 : ℚ) < 2 ^ e := fun e => by positivity
  rcases (exponent_mono hx hxy).eq_or_lt with he | he
  · rw [round, round, he]
    refine mul_le_mul_of_nonneg_right (Int.cast_le.mpr (Rounding.halfEven_mono ?_)) (hpos _).le
    exact div_le_div_of_nonneg_right hxy (hpos _).le
  · -- a power of two lies between the two numbers
    have hlow : round x ≤ 2 ^ (exponent x + 53) := by
      have hdigits : x / 2 ^ exponent x ≤ ((2 ^ 53 : ℤ) : ℚ) := by
        have h := (le_abs_self x).trans (abs_lt_zpow_exponent x).le
        rw [div_le_iff₀ (hpos _)]
        rw [zpow_add₀ two_ne_zero, mul_comm] at h
        exact_mod_cast h
      have h := Rounding.halfEven_mono hdigits
      rw [Rounding.halfEven_intCast] at h
      have hmul := mul_le_mul_of_nonneg_right (Int.cast_le.mpr h : _ ≤ ((2 ^ 53 : ℤ) : ℚ))
        (hpos (exponent x)).le
      rw [zpow_add₀ two_ne_zero, mul_comm (2 ^ exponent x)]
      exact_mod_cast hmul
    have hhigh : 2 ^ (exponent y + 52) ≤ round y := by
      have hmin : -1074 ≤ exponent x := le_max_right _ _
      have hdigits : ((2 ^ 52 : ℤ) : ℚ) ≤ y / 2 ^ exponent y := by
        have h := zpow_le_of_lt_exponent (hx.trans_le hxy) (hmin.trans_lt he)
        rw [le_div_iff₀ (hpos _)]
        rw [zpow_add₀ two_ne_zero, mul_comm] at h
        exact_mod_cast h
      have h := Rounding.halfEven_mono hdigits
      rw [Rounding.halfEven_intCast] at h
      have hmul := mul_le_mul_of_nonneg_right (Int.cast_le.mpr h : ((2 ^ 52 : ℤ) : ℚ) ≤ _)
        (hpos (exponent y)).le
      rw [zpow_add₀ two_ne_zero, mul_comm (2 ^ exponent y)]
      exact_mod_cast hmul
    exact hlow.trans ((zpow_le_zpow_right₀ one_le_two (by omega)).trans hhigh)

theorem round_mono : Monotone round := by
  have hnonneg : ∀ {x y : ℚ}, 0 ≤ x → x ≤ y → round x ≤ round y := by
    intro x y hx hxy
    rcases hx.eq_or_lt with rfl | hx
    · rw [round_zero]
      exact round_nonneg hxy
    · exact round_le_round_of_pos hx hxy
  intro x y hxy
  rcases le_total 0 x with hx | hx
  · exact hnonneg hx hxy
  rcases le_total 0 y with hy | hy
  · refine le_trans ?_ (round_nonneg hy)
    rw [← neg_nonneg, ← round_neg]
    exact round_nonneg (neg_nonneg.mpr hx)
  · rw [← neg_le_neg_iff, ← round_neg, ← round_neg]
    exact hnonneg (neg_nonneg.mpr hy) (neg_le_neg hxy)

theorem abs_round_sub_le (x : ℚ) : |round x - x| ≤ 2 ^ exponent x / 2 := by
  have hpos : (0 : ℚ) < 2 ^ exponent x := by positivity
  have hx : round x - x =
      (Rounding.halfEven (x / 2 ^ exponent x) - x / 2 ^ exponent x) * 2 ^ exponent x := by
    rw [round, sub_mul, div_mul_cancel₀ x hpos.ne']
  rw [hx, abs_mul, abs_of_pos hpos, div_eq_inv_mul (2 ^ exponent x) 2, ← one_div]
  exact mul_le_mul_of_nonneg_right (Rounding.abs_halfEven_sub_le _) hpos.le

theorem exponent_le {k : ℤ} (hk : -1022 ≤ k) (hx : |x| ≤ 2 ^ k) (hne : x ≠ 0) :
    exponent x ≤ k - 52 := by
  have hlog : Int.log 2 |x| ≤ k := by
    have h := Int.log_mono_right (b := 2) (abs_pos.mpr hne) hx
    have hz : Int.log 2 ((2 : ℚ) ^ k) = k := by
      exact_mod_cast Int.log_zpow (R := ℚ) Nat.one_lt_two k
    rwa [hz] at h
  exact max_le (by omega) (by omega)

theorem le_exponent {k : ℤ} (hx : 2 ^ k ≤ |x|) : k - 52 ≤ exponent x := by
  have hlog : k ≤ Int.log 2 |x| := by
    have h := Int.log_mono_right (b := 2) (by positivity : (0 : ℚ) < 2 ^ k) hx
    have hz : Int.log 2 ((2 : ℚ) ^ k) = k := by
      exact_mod_cast Int.log_zpow (R := ℚ) Nat.one_lt_two k
    rwa [hz] at h
  rw [exponent]
  omega

/-- A double is a multiple of any power of two that is not above its last digit. -/
theorem exists_eq_mul_zpow (hx : round x = x) {e : ℤ} (he : e ≤ exponent x) :
    ∃ n : ℤ, x = n * 2 ^ e := by
  obtain ⟨k, hk⟩ := Int.eq_ofNat_of_zero_le (sub_nonneg.mpr he)
  refine ⟨Rounding.halfEven (x / 2 ^ exponent x) * 2 ^ k, ?_⟩
  calc x = Rounding.halfEven (x / 2 ^ exponent x) * 2 ^ exponent x := hx.symm
    _ = Rounding.halfEven (x / 2 ^ exponent x) * (2 ^ k * 2 ^ e) := by
      rw [show exponent x = k + e by omega, zpow_add₀ two_ne_zero, zpow_natCast]
    _ = _ := by
      push_cast
      ring

/-- A number with enough digits is a double. -/
theorem round_of_eq_mul_zpow {n e : ℤ} (hx : x = n * 2 ^ e) (he : exponent x ≤ e) :
    round x = x := by
  obtain ⟨k, hk⟩ := Int.eq_ofNat_of_zero_le (sub_nonneg.mpr he)
  have hpos : (0 : ℚ) < 2 ^ exponent x := by positivity
  have hdigits : x / 2 ^ exponent x = (n * 2 ^ k : ℤ) := by
    have hsplit : (2 : ℚ) ^ e = 2 ^ exponent x * 2 ^ k := by
      rw [show e = exponent x + k by omega, zpow_add₀ two_ne_zero, zpow_natCast]
    rw [div_eq_iff hpos.ne']
    push_cast
    rw [mul_right_comm, mul_assoc, ← hsplit]
    exact hx
  rw [round, hdigits, Rounding.halfEven_intCast, ← hdigits, div_mul_cancel₀ x hpos.ne']

/-- The integers up to `2 ^ 52` are doubles. -/
theorem round_intCast {n : ℤ} (hn : |n| ≤ 2 ^ 52) : round n = n := by
  rcases eq_or_ne n 0 with rfl | hne
  · exact_mod_cast round_zero
  · have hle : |(n : ℚ)| ≤ 2 ^ (52 : ℤ) := by exact_mod_cast hn
    exact round_of_eq_mul_zpow (e := 0) (by rw [zpow_zero, mul_one])
      (exponent_le (by norm_num) hle (Int.cast_ne_zero.mpr hne))

theorem exponent_le_of_lt {k : ℤ} (hk : -1074 ≤ k) (hx : |x| < 2 ^ (k + 53)) (hne : x ≠ 0) :
    exponent x ≤ k := by
  have hlog : Int.log 2 |x| < k + 53 :=
    (Int.lt_zpow_iff_log_lt Nat.one_lt_two (abs_pos.mpr hne)).mp (by exact_mod_cast hx)
  exact max_le (by omega) hk

/-- What is rounded is a double. -/
theorem round_round (x : ℚ) : round (round x) = round x := by
  have hpos : (0 : ℚ) < 2 ^ exponent x := by positivity
  have hmin : -1074 ≤ exponent x := le_max_right _ _
  have hround : round x = Rounding.halfEven (x / 2 ^ exponent x) * 2 ^ exponent x := rfl
  rcases eq_or_ne (round x) 0 with hzero | hne
  · rw [hzero, round_zero]
  rcases lt_or_ge |round x| (2 ^ (exponent x + 53)) with hlt | hge
  · exact round_of_eq_mul_zpow hround (exponent_le_of_lt hmin hlt hne)
  · -- the digits have been rounded up to the next power of two
    have hsplit : (2 : ℚ) ^ (exponent x + 53) = 2 ^ exponent x * 2 ^ 53 := by
      rw [zpow_add₀ two_ne_zero]
      norm_cast
    have hnear := Rounding.abs_halfEven_sub_le (x / 2 ^ exponent x)
    have hdigits : |x / 2 ^ exponent x| < 2 ^ 53 := by
      rw [abs_div, abs_of_pos hpos, div_lt_iff₀ hpos, mul_comm, ← hsplit]
      exact abs_lt_zpow_exponent x
    have hlow : 2 ^ 53 ≤ |Rounding.halfEven (x / 2 ^ exponent x)| := by
      rw [hround, abs_mul, abs_of_pos hpos, hsplit, mul_comm (2 ^ _)] at hge
      exact_mod_cast le_of_mul_le_mul_right hge hpos
    have hhigh : |Rounding.halfEven (x / 2 ^ exponent x)| < 2 ^ 53 + 1 := by
      have h := abs_sub_abs_le_abs_sub (Rounding.halfEven (x / 2 ^ exponent x) : ℚ)
        (x / 2 ^ exponent x)
      have hlt : (|Rounding.halfEven (x / 2 ^ exponent x)| : ℚ) < 2 ^ 53 + 1 := by linarith
      exact_mod_cast hlt
    have hle : |round x| ≤ 2 ^ (exponent x + 53) := by
      rw [hround, abs_mul, abs_of_pos hpos, hsplit, mul_comm]
      refine mul_le_mul_of_nonneg_left ?_ hpos.le
      exact_mod_cast Int.lt_add_one_iff.mp hhigh
    have hexponent : exponent (round x) ≤ exponent x + 53 :=
      (exponent_le (by omega) hle hne).trans (by omega)
    rcases (abs_eq (by norm_num)).mp (le_antisymm (Int.lt_add_one_iff.mp hhigh) hlow) with h | h
    · refine round_of_eq_mul_zpow (n := 1) ?_ hexponent
      rw [hround, h, hsplit]
      push_cast
      ring
    · refine round_of_eq_mul_zpow (n := -1) ?_ hexponent
      rw [hround, h, hsplit]
      push_cast
      ring
end Double

namespace Arithmetic

/-- The floats of Python. -/
def double : Arithmetic := ⟨Double.round, Double.round_mono, Double.round_zero, Double.round_round⟩

theorem double_keepsIntegers : double.KeepsIntegers (2 ^ 52) := fun _ hn =>
  Double.round_intCast (by exact_mod_cast hn)

theorem double_errsAtMost {k : ℤ} (hk : -1022 ≤ k) :
    double.ErrsAtMost (2 ^ (k - 53)) (2 ^ k) := by
  intro x hx
  by_cases hne : x = 0
  · subst hne
    rw [double.round_zero, sub_self, abs_zero]
    positivity
  · refine (Double.abs_round_sub_le x).trans ?_
    have he := zpow_le_zpow_right₀ (one_le_two (α := ℚ)) (Double.exponent_le hk hx hne)
    rw [show k - 53 = k - 52 - 1 by ring, zpow_sub_one₀ two_ne_zero, ← div_eq_mul_inv]
    exact div_le_div_of_nonneg_right he zero_le_two

end Arithmetic

end Fastrak
