import Mathlib.Algebra.Group.Subgroup.ZPowers.Basic
import Mathlib.Data.Rat.Floor
import Mathlib.Tactic.FieldSimp
import Mathlib.Tactic.Linarith
import Mathlib.Tactic.Positivity
import Mathlib.Tactic.Ring

/-!
# Decimal rounding in exact arithmetic

`roundHalfEven` rounds to a number of decimals with ties to the even digit,
`roundHalfUp` with ties away from zero, and `roundAway` rounds to a multiple of a
precision away from zero. All are given on exact rationals, where a tie is a tie and
no correction for a binary representation is needed.

`decimals digits` is the group of the numbers with that many decimals. Rounding ends in
it, leaves its members alone, and moves any other number by at most half a unit of the
last digit.
-/

namespace Fastrak

namespace Rounding

/-- The integer nearest to `x`, the even one when two are equally near. -/
def halfEven (x : ℚ) : ℤ :=
  let r := x - ⌊x⌋
  if r < 1 / 2 then ⌊x⌋
  else if 1 / 2 < r then ⌊x⌋ + 1
  else if ⌊x⌋ % 2 = 0 then ⌊x⌋ else ⌊x⌋ + 1

/-- `x` rounded to `digits` decimals, ties to even. -/
def roundHalfEven (x : ℚ) (digits : ℕ) : ℚ :=
  halfEven (x * 10 ^ digits) / 10 ^ digits

/-- `x` rounded away from zero to a multiple of `precision`. -/
def roundAway (x precision : ℚ) : ℚ :=
  if x < 0 then -(⌈-x / precision⌉ * precision) else ⌈x / precision⌉ * precision

/-- The integer nearest to `x`, the one further from zero when two are equally near. -/
def halfUp (x : ℚ) : ℤ := if x < 0 then -⌊-x + 1 / 2⌋ else ⌊x + 1 / 2⌋

/-- `x` rounded to `digits` decimals, ties away from zero. -/
def roundHalfUp (x : ℚ) (digits : ℕ) : ℚ := halfUp (x * 10 ^ digits) / 10 ^ digits

/-- The numbers with `digits` decimals. -/
def decimals (digits : ℕ) : AddSubgroup ℚ := AddSubgroup.zmultiples (1 / 10 ^ digits)

variable {x y : ℚ} {digits : ℕ}

theorem mem_decimals_iff : x ∈ decimals digits ↔ ∃ n : ℤ, x * 10 ^ digits = n := by
  rw [decimals, AddSubgroup.mem_zmultiples_iff]
  refine exists_congr fun n => ?_
  rw [zsmul_eq_mul, mul_one_div, div_eq_iff (by positivity), eq_comm]

theorem intCast_div_mem_decimals (n : ℤ) : (n : ℚ) / 10 ^ digits ∈ decimals digits :=
  mem_decimals_iff.mpr ⟨n, div_mul_cancel₀ _ (by positivity)⟩

/-- Numbers with the same number of decimals that are less than one unit of the last digit apart
are equal. -/
theorem eq_of_abs_sub_lt (hx : x ∈ decimals digits) (hy : y ∈ decimals digits)
    (h : |x - y| < 1 / 10 ^ digits) : x = y := by
  have h10 : (0 : ℚ) < 10 ^ digits := by positivity
  obtain ⟨n, hn⟩ := mem_decimals_iff.mp (sub_mem hx hy)
  have hlt : |(n : ℚ)| < 1 := by
    rw [← hn, abs_mul, abs_of_pos h10]
    exact (lt_div_iff₀ h10).mp h
  have hzero : n = 0 := Int.abs_lt_one_iff.mp (by exact_mod_cast hlt)
  rw [hzero, Int.cast_zero, mul_eq_zero_iff_right h10.ne'] at hn
  exact sub_eq_zero.mp hn

/-! ## Ties to even -/

@[simp] theorem halfEven_intCast (n : ℤ) : halfEven n = n := by simp [halfEven]

/-- How far `halfEven` moves a number, and when it moves it by a half. -/
theorem halfEven_spec (x : ℚ) :
    |halfEven x - x| < 1 / 2 ∨ |halfEven x - x| = 1 / 2 ∧ halfEven x % 2 = 0 := by
  have hlo := Int.floor_le x
  have hhi := Int.lt_floor_add_one x
  unfold halfEven
  dsimp only
  split_ifs with h₁ h₂ h₃
  · exact .inl (abs_lt.mpr ⟨by linarith, by linarith⟩)
  · refine .inl (abs_lt.mpr ⟨?_, ?_⟩) <;> push_cast <;> linarith
  · have h : ⌊x⌋ - x = -(1 / 2) := by linarith
    exact .inr ⟨by rw [h, abs_neg, abs_of_pos one_half_pos], h₃⟩
  · have h : ((⌊x⌋ + 1 : ℤ) : ℚ) - x = 1 / 2 := by
      push_cast
      linarith
    exact .inr ⟨by rw [h, abs_of_pos one_half_pos], by omega⟩

theorem abs_halfEven_sub_le (x : ℚ) : |halfEven x - x| ≤ 1 / 2 := by
  rcases halfEven_spec x with h | h
  · exact h.le
  · exact h.1.le

theorem halfEven_le_iff {n : ℤ} :
    halfEven x ≤ n ↔ x < n + 1 / 2 ∨ x = n + 1 / 2 ∧ n % 2 = 0 := by
  have hnear := abs_le.mp (abs_halfEven_sub_le x)
  constructor
  · intro hle
    rcases hle.eq_or_lt with rfl | hlt
    · rcases halfEven_spec x with h | ⟨h, heven⟩
      · exact .inl (by linarith [(abs_lt.mp h).1])
      · rcases (show x ≤ halfEven x + 1 / 2 by linarith [hnear.1]).lt_or_eq with hx | hx
        · exact .inl hx
        · exact .inr ⟨hx, heven⟩
    · have hn : (halfEven x : ℚ) + 1 ≤ n := by exact_mod_cast hlt
      exact .inl (by linarith [hnear.1])
  · rintro (hx | ⟨hx, heven⟩)
    · have hn : (halfEven x : ℚ) < n + 1 := by linarith [hnear.2]
      exact Int.lt_add_one_iff.mp (by exact_mod_cast hn)
    · by_contra hgt
      -- the only integer above `n` within a half of the tie is `n + 1`, which is odd
      have hn : (halfEven x : ℚ) ≤ n + 1 := by linarith [hnear.2]
      have hsucc : halfEven x = n + 1 :=
        le_antisymm (by exact_mod_cast hn) (Int.add_one_le_iff.mpr (not_le.mp hgt))
      rcases halfEven_spec x with h | h
      · rw [hsucc, hx] at h
        push_cast at h
        linarith [(abs_lt.mp h).2]
      · omega

theorem halfEven_nonneg_iff : 0 ≤ halfEven x ↔ -(1 / 2) ≤ x := by
  rw [← not_lt, Int.lt_iff_add_one_le, ← le_sub_iff_add_le, halfEven_le_iff, ← not_lt]
  norm_num

theorem halfEven_mono (hxy : x ≤ y) : halfEven x ≤ halfEven y := by
  rw [halfEven_le_iff]
  rcases halfEven_le_iff.mp (le_refl (halfEven y)) with hy | ⟨hy, heven⟩
  · exact .inl (hxy.trans_lt hy)
  · rcases (hxy.trans hy.le).lt_or_eq with hx | hx
    · exact .inl hx
    · exact .inr ⟨hx, heven⟩

theorem halfEven_neg (x : ℚ) : halfEven (-x) = -halfEven x := by
  have hspec := halfEven_spec x
  have hnear := abs_le.mp (abs_halfEven_sub_le x)
  refine le_antisymm (halfEven_le_iff.mpr ?_) (not_lt.mp fun hlt => ?_)
  · push_cast
    rcases hspec with h | ⟨h, heven⟩
    · exact .inl (by linarith [(abs_lt.mp h).2])
    · rcases (show -x ≤ -halfEven x + 1 / 2 by linarith [hnear.2]).lt_or_eq with hx | hx
      · exact .inl hx
      · exact .inr ⟨hx, by omega⟩
  · rcases halfEven_le_iff.mp (Int.le_sub_one_of_lt hlt) with hx | ⟨hx, hodd⟩
    · push_cast at hx
      linarith [hnear.1]
    · push_cast at hx
      rcases hspec with h | ⟨-, heven⟩
      · linarith [(abs_lt.mp h).1]
      · omega

theorem roundHalfEven_mem_decimals (x : ℚ) (digits : ℕ) :
    roundHalfEven x digits ∈ decimals digits :=
  intCast_div_mem_decimals _

theorem roundHalfEven_of_mem_decimals (h : x ∈ decimals digits) : roundHalfEven x digits = x := by
  obtain ⟨n, hn⟩ := mem_decimals_iff.mp h
  rw [roundHalfEven, hn, halfEven_intCast, ← hn, mul_div_cancel_right₀ _ (by positivity)]

theorem abs_roundHalfEven_sub_le (x : ℚ) (digits : ℕ) :
    |roundHalfEven x digits - x| ≤ 1 / 2 / 10 ^ digits := by
  have h10 : (0 : ℚ) < 10 ^ digits := by positivity
  have h := abs_halfEven_sub_le (x * 10 ^ digits)
  have hx : roundHalfEven x digits - x = (halfEven (x * 10 ^ digits) - x * 10 ^ digits) /
      10 ^ digits := by
    rw [roundHalfEven, sub_div, mul_div_cancel_right₀ _ h10.ne']
  rw [hx, abs_div, abs_of_pos h10]
  gcongr

/-! ## Numbers that stand for decimals -/

/-- `x` is `n` units of the last digit, up to an error. -/
def Near (digits : ℕ) (error x : ℚ) (n : ℤ) : Prop := |x - n / 10 ^ digits| ≤ error

instance (digits : ℕ) (error x : ℚ) (n : ℤ) : Decidable (Near digits error x n) :=
  inferInstanceAs (Decidable (_ ≤ _))

section Near

variable {error error' : ℚ} {m n : ℤ}

theorem near_zero_iff : Near digits 0 x n ↔ x = n / 10 ^ digits := by
  rw [Near, abs_nonpos_iff, sub_eq_zero]

theorem near_roundHalfEven (x : ℚ) (digits : ℕ) :
    Near digits 0 (roundHalfEven x digits) (halfEven (x * 10 ^ digits)) :=
  near_zero_iff.mpr rfl

theorem near_zero (herror : 0 ≤ error) : Near digits error 0 0 := by simpa [Near] using herror

namespace Near

theorem nonneg (h : Near digits error x n) : 0 ≤ error := (abs_nonneg _).trans h

theorem add (hx : Near digits error x m) (hy : Near digits error' y n) :
    Near digits (error + error') (x + y) (m + n) := by
  have hsum : x + y - ((m + n : ℤ) : ℚ) / 10 ^ digits =
      (x - m / 10 ^ digits) + (y - n / 10 ^ digits) := by
    push_cast
    ring
  rw [Near, hsum]
  exact (abs_add_le _ _).trans (add_le_add hx hy)

theorem neg (hx : Near digits error x n) : Near digits error (-x) (-n) := by
  rw [Near, Int.cast_neg, neg_div, ← neg_sub', abs_neg]
  exact hx

theorem sub (hx : Near digits error x m) (hy : Near digits error' y n) :
    Near digits (error + error') (x - y) (m - n) := by
  rw [sub_eq_add_neg, sub_eq_add_neg]
  exact hx.add hy.neg

theorem abs_le (hx : Near digits error x n) : |x| ≤ |(n : ℚ) / 10 ^ digits| + error := by
  have h := abs_sub_abs_le_abs_sub x (n / 10 ^ digits)
  have hx : |x - n / 10 ^ digits| ≤ error := hx
  linarith

/-- A number stands for one decimal only. -/
theorem unique (herror : error + error' < 1 / 10 ^ digits) (hm : Near digits error x m)
    (hn : Near digits error' x n) : m = n := by
  have h10 : (0 : ℚ) < 10 ^ digits := by positivity
  have hdiff := hm.sub hn
  rw [Near, sub_self, zero_sub, abs_neg, abs_div, abs_of_pos h10, div_le_iff₀ h10] at hdiff
  have hlt : |((m - n : ℤ) : ℚ)| < 1 :=
    hdiff.trans_lt ((lt_div_iff₀ h10).mp herror)
  exact sub_eq_zero.mp (Int.abs_lt_one_iff.mp (by exact_mod_cast hlt))

/-- A small error does not change what a number is rounded to. -/
theorem roundHalfEven_eq (herror : error < 1 / 2 / 10 ^ digits) (hx : Near digits error x n) :
    halfEven (x * 10 ^ digits) = n := by
  have hround : Near digits (1 / 2 / 10 ^ digits + 0) x (halfEven (x * 10 ^ digits)) := by
    rw [Near, add_zero, abs_sub_comm]
    exact abs_roundHalfEven_sub_le x digits
  refine hround.unique ?_ hx
  have hhalf : (1 : ℚ) / 10 ^ digits = 1 / 2 / 10 ^ digits + 1 / 2 / 10 ^ digits := by ring
  linarith

end Near

end Near

/-! ## Away from zero -/

theorem roundAway_zero (precision : ℚ) : roundAway 0 precision = 0 := by simp [roundAway]

theorem abs_roundAway_sub_lt {precision : ℚ} (hp : 0 < precision) (x : ℚ) :
    |roundAway x precision - x| < precision := by
  have hceil : ∀ y : ℚ, 0 ≤ ⌈y / precision⌉ * precision - y ∧
      ⌈y / precision⌉ * precision - y < precision := by
    intro y
    have hlo := mul_le_mul_of_nonneg_right (Int.le_ceil (y / precision)) hp.le
    have hhi := mul_lt_mul_of_pos_right (Int.ceil_lt_add_one (y / precision)) hp
    rw [div_mul_cancel₀ y hp.ne'] at hlo
    rw [add_mul, div_mul_cancel₀ y hp.ne'] at hhi
    constructor <;> linarith
  rw [abs_lt]
  unfold roundAway
  split
  · have h := hceil (-x)
    constructor <;> linarith [h.1, h.2]
  · have h := hceil x
    constructor <;> linarith [h.1, h.2]

/-! ## Ties away from zero -/

theorem halfUp_of_nonneg (h : 0 ≤ x) : halfUp x = ⌊x + 1 / 2⌋ := if_neg (not_lt.mpr h)

theorem halfUp_of_neg (h : x < 0) : halfUp x = -⌊-x + 1 / 2⌋ := if_pos h

theorem halfUp_nonneg (h : 0 ≤ x) : 0 ≤ halfUp x := by
  rw [halfUp_of_nonneg h]
  exact Int.floor_nonneg.mpr (by linarith)

theorem halfUp_mono (hxy : x ≤ y) : halfUp x ≤ halfUp y := by
  rcases lt_or_ge x 0 with hx | hx
  · rcases lt_or_ge y 0 with hy | hy
    · rw [halfUp_of_neg hx, halfUp_of_neg hy]
      exact neg_le_neg (Int.floor_le_floor (by linarith))
    · refine le_trans ?_ (halfUp_nonneg hy)
      rw [halfUp_of_neg hx]
      exact neg_nonpos.mpr (Int.floor_nonneg.mpr (by linarith))
  · rw [halfUp_of_nonneg hx, halfUp_of_nonneg (hx.trans hxy)]
    exact Int.floor_le_floor (by linarith)

/-- The numbers that are rounded to `n`: those nearer to it than a half, and the tie on the
side of zero. -/
theorem halfUp_eq_iff {n : ℤ} :
    halfUp x = n ↔ |x - n| < 1 / 2 ∨ x - n = -(1 / 2) ∧ 0 < n ∨ x - n = 1 / 2 ∧ n < 0 := by
  rcases lt_or_ge x 0 with hx | hx
  · rw [halfUp_of_neg hx, neg_eq_iff_eq_neg, Int.floor_eq_iff, abs_lt]
    push_cast
    constructor
    · rintro ⟨hle, hlt⟩
      rcases (show x - n ≤ 1 / 2 by linarith).lt_or_eq with h | h
      · exact .inl ⟨by linarith, h⟩
      · have hn : (n : ℚ) < 0 := by linarith
        exact .inr (.inr ⟨h, by exact_mod_cast hn⟩)
    · rintro (⟨hlo, hhi⟩ | ⟨h, hn⟩ | ⟨h, -⟩)
      · constructor <;> linarith
      · have hn : (1 : ℚ) ≤ n := by exact_mod_cast hn
        linarith
      · constructor <;> linarith
  · rw [halfUp_of_nonneg hx, Int.floor_eq_iff, abs_lt]
    constructor
    · rintro ⟨hle, hlt⟩
      rcases (show -(1 / 2) ≤ x - n by linarith).lt_or_eq with h | h
      · exact .inl ⟨h, by linarith⟩
      · have hn : (0 : ℚ) < n := by linarith
        exact .inr (.inl ⟨h.symm, by exact_mod_cast hn⟩)
    · rintro (⟨hlo, hhi⟩ | ⟨h, -⟩ | ⟨h, hn⟩)
      · constructor <;> linarith
      · constructor <;> linarith
      · have hn : (n : ℚ) ≤ -1 := by exact_mod_cast Int.le_sub_one_iff.mpr hn
        linarith

@[simp] theorem halfUp_intCast (n : ℤ) : halfUp n = n := halfUp_eq_iff.mpr (.inl (by norm_num))

theorem abs_halfUp_sub_le (x : ℚ) : |halfUp x - x| ≤ 1 / 2 := by
  rw [abs_sub_comm]
  rcases halfUp_eq_iff.mp (rfl : halfUp x = halfUp x) with h | ⟨h, -⟩ | ⟨h, -⟩
  · exact h.le
  · rw [h, abs_neg, abs_of_pos one_half_pos]
  · rw [h, abs_of_pos one_half_pos]

theorem roundHalfUp_mem_decimals (x : ℚ) (digits : ℕ) : roundHalfUp x digits ∈ decimals digits :=
  intCast_div_mem_decimals _

theorem roundHalfUp_of_mem_decimals (h : x ∈ decimals digits) : roundHalfUp x digits = x := by
  obtain ⟨n, hn⟩ := mem_decimals_iff.mp h
  rw [roundHalfUp, hn, halfUp_intCast, ← hn, mul_div_cancel_right₀ _ (by positivity)]

theorem abs_roundHalfUp_sub_le (x : ℚ) (digits : ℕ) :
    |roundHalfUp x digits - x| ≤ 1 / 2 / 10 ^ digits := by
  have h10 : (0 : ℚ) < 10 ^ digits := by positivity
  have h := abs_halfUp_sub_le (x * 10 ^ digits)
  have hx : roundHalfUp x digits - x = (halfUp (x * 10 ^ digits) - x * 10 ^ digits) /
      10 ^ digits := by
    rw [roundHalfUp, sub_div, mul_div_cancel_right₀ _ h10.ne']
  rw [hx, abs_div, abs_of_pos h10]
  gcongr

@[simp] theorem roundHalfUp_zero (digits : ℕ) : roundHalfUp 0 digits = 0 :=
  roundHalfUp_of_mem_decimals (zero_mem _)

theorem roundHalfUp_mono (hxy : x ≤ y) (digits : ℕ) :
    roundHalfUp x digits ≤ roundHalfUp y digits := by
  have h : halfUp (x * 10 ^ digits) ≤ halfUp (y * 10 ^ digits) := halfUp_mono (by gcongr)
  have hcast : (halfUp (x * 10 ^ digits) : ℚ) ≤ halfUp (y * 10 ^ digits) := by exact_mod_cast h
  exact div_le_div_of_nonneg_right hcast (by positivity)

theorem roundHalfUp_nonneg (h : 0 ≤ x) (digits : ℕ) : 0 ≤ roundHalfUp x digits := by
  have hmono := roundHalfUp_mono h digits
  rwa [roundHalfUp_zero] at hmono

/-! ## Rounding to a nearest number -/

/-- `round` rounds to a nearest number with that many decimals, where a tolerance is left around
the ties. -/
structure RoundsNearest (digits : ℕ) (tolerance round : ℚ → ℚ) : Prop where
  mem_decimals : ∀ x, round x ∈ decimals digits
  near : ∀ x, |round x - x| ≤ 1 / 2 / 10 ^ digits + tolerance x
  zero : round 0 = 0

theorem roundHalfUp_roundsNearest (digits : ℕ) :
    RoundsNearest digits (fun _ => 0) fun x => roundHalfUp x digits where
  mem_decimals x := roundHalfUp_mem_decimals x digits
  near x := by
    rw [add_zero]
    exact abs_roundHalfUp_sub_le x digits
  zero := roundHalfUp_zero digits

end Rounding

end Fastrak
