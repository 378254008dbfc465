import Mathlib.Algebra.Order.Floor.Ring
import Mathlib.Algebra.Order.Round
import Mathlib.Data.Int.ConditionallyCompleteOrder
import Mathlib.Tactic.FieldSimp
import Mathlib.Tactic.Linarith
import Mathlib.Tactic.Positivity
import Mathlib.Tactic.Push
import Mathlib.Tactic.Ring

/-!
# Rounding to the nearest integer, with either tie rule

`roundHalfAway` sends ties away from zero, `roundTiesEven` sends them to the even neighbour.
Both are within one half of their argument, monotone, and exact on the integers; `roundTo`
rounds on the grid of multiples of `1 / scale`.
-/

namespace KalshiMm.Lib

section Nearest

variable {α : Type*} [Field α] [LinearOrder α] [IsStrictOrderedRing α] [FloorRing α]

/-- Nearest integer, ties away from zero. -/
def roundHalfAway (x : α) : ℤ :=
  if 0 ≤ x then ⌊x + 1 / 2⌋ else ⌈x - 1 / 2⌉

/-- Nearest integer, ties to even. -/
def roundTiesEven (x : α) : ℤ :=
  if x - ⌊x⌋ < 1 / 2 then ⌊x⌋
  else if 1 / 2 < x - ⌊x⌋ then ⌊x⌋ + 1
  else if ⌊x⌋ % 2 = 0 then ⌊x⌋ else ⌊x⌋ + 1

/-! ## Distance to the argument -/

/-- A rounding that stays within one half of its argument. -/
def IsNearest (rnd : α → ℤ) : Prop := ∀ x, |x - rnd x| ≤ 1 / 2

theorem roundHalfAway_isNearest : IsNearest (roundHalfAway : α → ℤ) := by
  intro x
  unfold roundHalfAway
  rw [abs_le]
  split_ifs with nonneg
  · have below := Int.floor_le (x + 1 / 2)
    have above := Int.lt_floor_add_one (x + 1 / 2)
    constructor <;> linarith
  · have below := Int.le_ceil (x - 1 / 2)
    have above := Int.ceil_lt_add_one (x - 1 / 2)
    constructor <;> linarith

theorem roundTiesEven_isNearest : IsNearest (roundTiesEven : α → ℤ) := by
  intro x
  have below := Int.floor_le x
  have above := Int.lt_floor_add_one x
  unfold roundTiesEven
  rw [abs_le]
  split_ifs with low high even
  · constructor <;> linarith
  · push_cast
    constructor <;> linarith
  · constructor <;> linarith
  · push_cast
    constructor <;> linarith

/-! ## Integers are fixed, bounds by integers survive -/

theorem IsNearest.le_of_le {rnd : α → ℤ} (nearest : IsNearest rnd) {n : ℤ} {x : α}
    (bound : (n : α) ≤ x) : n ≤ rnd x := by
  have close := (abs_le.mp (nearest x)).2
  have : (n : α) < (rnd x : α) + 1 := by linarith
  exact Int.lt_add_one_iff.mp (by exact_mod_cast this)

theorem IsNearest.ge_of_ge {rnd : α → ℤ} (nearest : IsNearest rnd) {n : ℤ} {x : α}
    (bound : x ≤ (n : α)) : rnd x ≤ n := by
  have close := (abs_le.mp (nearest x)).1
  have : (rnd x : α) < (n : α) + 1 := by linarith
  exact Int.lt_add_one_iff.mp (by exact_mod_cast this)

theorem IsNearest.intCast {rnd : α → ℤ} (nearest : IsNearest rnd) (n : ℤ) : rnd (n : α) = n :=
  le_antisymm (nearest.ge_of_ge le_rfl) (nearest.le_of_le le_rfl)

/-- Rounding to the nearest integer is monotone, whatever it does with ties. -/
theorem IsNearest.monotone {rnd : α → ℤ} (nearest : IsNearest rnd) : Monotone rnd := by
  intro x y le
  obtain rfl | less := le.eq_or_lt
  · exact le_rfl
  · have low := (abs_le.mp (nearest x)).1
    have high := (abs_le.mp (nearest y)).2
    have : (rnd x : α) < (rnd y : α) + 1 := by linarith
    exact Int.lt_add_one_iff.mp (by exact_mod_cast this)

/-! ## Ties to even are symmetric about the even integers -/

theorem roundTiesEven_of_tie {x : α} (tie : |x - roundTiesEven x| = 1 / 2) :
    roundTiesEven x % 2 = 0 := by
  have below := Int.floor_le x
  have above := Int.lt_floor_add_one x
  unfold roundTiesEven at tie ⊢
  split_ifs at tie ⊢ with low high even
  · rw [abs_of_nonneg (by linarith)] at tie
    exact absurd low (by rw [tie]; exact lt_irrefl _)
  · push_cast at tie
    rw [abs_of_nonpos (by linarith)] at tie
    linarith
  · exact even
  · omega

/-- A nearest integer that is even where it is not the only one. -/
theorem roundTiesEven_unique {x : α} {n : ℤ} (close : |x - n| ≤ 1 / 2)
    (even : |x - n| = 1 / 2 → n % 2 = 0) : roundTiesEven x = n := by
  have nearest := roundTiesEven_isNearest x
  have tied := roundTiesEven_of_tie (x := x)
  generalize roundTiesEven x = r at nearest tied
  obtain ⟨low, high⟩ := abs_le.mp close
  obtain ⟨low', high'⟩ := abs_le.mp nearest
  have near : r ≤ n + 1 ∧ n ≤ r + 1 := by
    have first : (r : α) ≤ n + 1 := by linarith
    have second : (n : α) ≤ r + 1 := by linarith
    exact ⟨by exact_mod_cast first, by exact_mod_cast second⟩
  by_contra differ
  -- two different nearest integers are neighbours, at one half each, and only one of them is even
  obtain above | above : r = n + 1 ∨ n = r + 1 := by omega
  · have exact_ : (r : α) = n + 1 := by exact_mod_cast above
    have one := even (by rw [abs_of_nonneg (by linarith)]; linarith)
    have other := tied (by rw [abs_of_nonpos (by linarith)]; linarith)
    omega
  · have exact_ : (n : α) = r + 1 := by exact_mod_cast above
    have one := even (by rw [abs_of_nonpos (by linarith)]; linarith)
    have other := tied (by rw [abs_of_nonneg (by linarith)]; linarith)
    omega

theorem roundTiesEven_even_sub (m : ℤ) (x : α) :
    roundTiesEven (2 * (m : α) - x) = 2 * m - roundTiesEven x := by
  have turned : 2 * (m : α) - x - ((2 * m - roundTiesEven x : ℤ) : α) = -(x - roundTiesEven x) := by
    push_cast
    ring
  refine roundTiesEven_unique ?_ fun tie => ?_
  · rw [turned, abs_neg]
    exact roundTiesEven_isNearest x
  · rw [turned, abs_neg] at tie
    have even := roundTiesEven_of_tie tie
    omega

theorem roundTiesEven_neg (x : α) : roundTiesEven (-x) = -roundTiesEven x := by
  have turned := roundTiesEven_even_sub 0 x
  rwa [Int.cast_zero, mul_zero, mul_zero, zero_sub, zero_sub] at turned

end Nearest

/-! ## Grids -/

section Grids

variable {β : Type*} [Field β] {scale x y : β}

/-- Rounding on the grid of multiples of `1 / scale`. -/
def roundTo (rnd : β → ℤ) (scale x : β) : β := rnd (x * scale) / scale

/-- A multiple of `1 / scale`. -/
def OnGrid (scale x : β) : Prop := ∃ n : ℤ, x * scale = n

namespace OnGrid

theorem add (left : OnGrid scale x) (right : OnGrid scale y) : OnGrid scale (x + y) := by
  obtain ⟨m, left⟩ := left
  obtain ⟨n, right⟩ := right
  exact ⟨m + n, by rw [add_mul, left, right, Int.cast_add]⟩

theorem sub (left : OnGrid scale x) (right : OnGrid scale y) : OnGrid scale (x - y) := by
  obtain ⟨m, left⟩ := left
  obtain ⟨n, right⟩ := right
  exact ⟨m - n, by rw [sub_mul, left, right, Int.cast_sub]⟩

theorem add_right_iff (right : OnGrid scale y) : OnGrid scale (x + y) ↔ OnGrid scale x := by
  refine ⟨fun grid => ?_, fun grid => grid.add right⟩
  have back := grid.sub right
  rwa [add_sub_cancel_right] at back

theorem sub_right_iff (right : OnGrid scale y) : OnGrid scale (x - y) ↔ OnGrid scale x := by
  refine ⟨fun grid => ?_, fun grid => grid.sub right⟩
  have back := grid.add right
  rwa [sub_add_cancel] at back

theorem finer (grid : OnGrid scale x) (k : ℤ) : OnGrid (scale * k) x := by
  obtain ⟨n, grid⟩ := grid
  exact ⟨n * k, by rw [← mul_assoc, grid, Int.cast_mul]⟩

theorem scaled {k : β} (grid : OnGrid (k * scale) x) : OnGrid scale (x * k) := by
  obtain ⟨n, grid⟩ := grid
  exact ⟨n, by rw [mul_assoc, grid]⟩

theorem roundTo (rnd : β → ℤ) (nonzero : scale ≠ 0) (x : β) :
    OnGrid scale (roundTo rnd scale x) :=
  ⟨rnd (x * scale), div_mul_cancel₀ _ nonzero⟩

theorem min [LinearOrder β] (left : OnGrid scale x) (right : OnGrid scale y) :
    OnGrid scale (min x y) := by
  cases min_choice x y with
  | inl first => rwa [first]
  | inr second => rwa [second]

theorem max [LinearOrder β] (left : OnGrid scale x) (right : OnGrid scale y) :
    OnGrid scale (max x y) := by
  cases max_choice x y with
  | inl first => rwa [first]
  | inr second => rwa [second]

/-- A bound that binds is the value. -/
theorem min_iff [LinearOrder β] (left : OnGrid scale x) :
    OnGrid scale (Min.min x y) ↔ (y < x → OnGrid scale y) := by
  obtain inside | binds := le_or_gt x y
  · rw [min_eq_left inside]
    exact iff_of_true left fun binds => absurd inside binds.not_ge
  · rw [min_eq_right binds.le]
    exact ⟨fun grid _ => grid, fun grid => grid binds⟩

theorem max_iff [LinearOrder β] (left : OnGrid scale x) :
    OnGrid scale (Max.max x y) ↔ (x < y → OnGrid scale y) := by
  obtain inside | binds := le_or_gt y x
  · rw [max_eq_left inside]
    exact iff_of_true left fun binds => absurd inside binds.not_ge
  · rw [max_eq_right binds.le]
    exact ⟨fun grid _ => grid, fun grid => grid binds⟩

end OnGrid

end Grids

section Grid

variable {α : Type*} [Field α] [LinearOrder α] [IsStrictOrderedRing α] [FloorRing α]
variable {rnd : α → ℤ} (nearest : IsNearest rnd) {scale : α}
include nearest

/-- A value already on the grid is not moved. -/
theorem roundTo_of_grid (positive : scale ≠ 0) {x : α} (grid : OnGrid scale x) :
    roundTo rnd scale x = x := by
  obtain ⟨n, grid⟩ := grid
  unfold roundTo
  rw [grid, nearest.intCast, ← grid, mul_div_cancel_right₀ _ positive]

theorem le_roundTo (positive : 0 < scale) {bound x : α} (grid : OnGrid scale bound)
    (below : bound ≤ x) : bound ≤ roundTo rnd scale x := by
  obtain ⟨n, grid⟩ := grid
  have kept : (n : α) ≤ rnd (x * scale) := by
    exact_mod_cast nearest.le_of_le (grid ▸ mul_le_mul_of_nonneg_right below positive.le)
  unfold roundTo
  rw [le_div_iff₀ positive, grid]
  exact kept

omit nearest in
theorem roundTo_monotone (mono : Monotone rnd) (positive : 0 < scale) :
    Monotone (roundTo rnd scale) := by
  intro x y le
  have scaled : rnd (x * scale) ≤ rnd (y * scale) :=
    mono (mul_le_mul_of_nonneg_right le positive.le)
  exact div_le_div_of_nonneg_right (Int.cast_le.mpr scaled) positive.le

end Grid

end KalshiMm.Lib
