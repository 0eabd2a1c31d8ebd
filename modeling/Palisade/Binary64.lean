import Mathlib.Data.Int.Log
import Mathlib.Data.Rat.Floor
import Mathlib.Tactic.Linarith
import Mathlib.Tactic.NormNum

/-! Arithmetic of finite binary64 numbers on their exact values. Every operation rounds its
exact result to the nearest number of the format, of two equally near ones to that with the
even mantissa; below the normal range the numbers are multiples of `2 ^ -1074`. The two zeros
are one value. Results too large for the format are not turned into infinities: a user of the
operations shows that its results stay small. -/
namespace Binary64

/-- The nearest integer, of two the even one. -/
def halfEven (x : ℚ) : ℤ :=
  if Int.fract x < 1 / 2 then ⌊x⌋
  else if 1 / 2 < Int.fract x then ⌊x⌋ + 1
  else if ⌊x⌋ % 2 = 0 then ⌊x⌋ else ⌊x⌋ + 1

/-- The exponent of the last place of the numbers around `x`. -/
def exponent (x : ℚ) : ℤ := max (Int.log 2 |x| - 52) (-1074)

def rounded (x : ℚ) : ℚ := halfEven (x / 2 ^ exponent x) * 2 ^ exponent x

/-- A number of the format, but for its size. -/
def Representable (x : ℚ) : Prop := rounded x = x

instance (x : ℚ) : Decidable (Representable x) := inferInstanceAs (Decidable (rounded x = x))

/-- The least positive number. -/
def smallest : ℚ := 2 ^ (-1074 : ℤ)

def add (x y : ℚ) : ℚ := rounded (x + y)
def sub (x y : ℚ) : ℚ := rounded (x - y)
def mul (x y : ℚ) : ℚ := rounded (x * y)
def div (x y : ℚ) : ℚ := rounded (x / y)

/-! The nearest integer. -/

theorem halfEven_le (x : ℚ) : halfEven x ≤ ⌊x⌋ + 1 := by
  unfold halfEven
  split_ifs <;> omega

theorem le_halfEven (x : ℚ) : ⌊x⌋ ≤ halfEven x := by
  unfold halfEven
  split_ifs <;> omega

@[simp] theorem halfEven_intCast (n : ℤ) : halfEven n = n := by
  have near : Int.fract (n : ℚ) < 1 / 2 := by norm_num
  rw [halfEven, if_pos near, Int.floor_intCast]

theorem halfEven_mono {x y : ℚ} (le : x ≤ y) : halfEven x ≤ halfEven y := by
  obtain less | same := (Int.floor_mono le).lt_or_eq
  · calc halfEven x ≤ ⌊x⌋ + 1 := halfEven_le x
      _ ≤ ⌊y⌋ := less
      _ ≤ halfEven y := le_halfEven y
  · have fracts : Int.fract x ≤ Int.fract y := by
      rw [Int.fract, Int.fract, same]
      exact sub_le_sub_right le _
    unfold halfEven
    rw [same]
    split_ifs <;> first | omega | linarith

theorem halfEven_neg (x : ℚ) : halfEven (-x) = -halfEven x := by
  by_cases whole : Int.fract x = 0
  · obtain ⟨n, rfl⟩ : ∃ n : ℤ, (n : ℚ) = x := Int.fract_eq_zero_iff.mp whole
    rw [← Int.cast_neg, halfEven_intCast, halfEven_intCast]
  · have opposite : Int.fract (-x) = 1 - Int.fract x := Int.fract_neg whole
    have below : ⌊-x⌋ = -⌊x⌋ - 1 := by
      have left := Int.floor_add_fract x
      have right := Int.floor_add_fract (-x)
      rw [opposite] at right
      have exact : ((⌊-x⌋ : ℤ) : ℚ) = ((-⌊x⌋ - 1 : ℤ) : ℚ) := by
        push_cast
        linarith
      exact_mod_cast exact
    unfold halfEven
    rw [opposite, below]
    split_ifs <;> first | omega | linarith

theorem abs_halfEven_sub_le (x : ℚ) : |(halfEven x : ℚ) - x| ≤ 1 / 2 := by
  have parts := Int.floor_add_fract x
  have least := Int.fract_nonneg x
  rw [abs_le]
  unfold halfEven
  split_ifs <;> push_cast <;> constructor <;> linarith [Int.fract_lt_one x]

/-! Rounding. -/

theorem two_zpow_pos (e : ℤ) : (0 : ℚ) < 2 ^ e := zpow_pos two_pos e

theorem lowest_le_exponent (x : ℚ) : -1074 ≤ exponent x := le_max_right _ _

@[simp] theorem exponent_neg (x : ℚ) : exponent (-x) = exponent x := by
  rw [exponent, exponent, abs_neg]

theorem exponent_mono {x y : ℚ} (positive : 0 < x) (le : x ≤ y) : exponent x ≤ exponent y := by
  rw [exponent, exponent, abs_of_pos positive, abs_of_pos (positive.trans_le le)]
  exact max_le_max (sub_le_sub_right (Int.log_mono_right positive le) _) le_rfl

/-- A mantissa has 53 bits. -/
theorem abs_lt_exponent (x : ℚ) : |x| < 2 ^ 53 * 2 ^ exponent x := by
  have whole : (2 : ℚ) ^ (53 : ℕ) * 2 ^ exponent x = 2 ^ (53 + exponent x) := by
    rw [zpow_add₀ two_ne_zero]
    norm_cast
  rw [whole]
  calc |x| < ((2 : ℕ) : ℚ) ^ (Int.log 2 |x| + 1) := Int.lt_zpow_succ_log_self one_lt_two |x|
    _ = (2 : ℚ) ^ (Int.log 2 |x| + 1) := by norm_cast
    _ ≤ 2 ^ (53 + exponent x) := zpow_le_zpow_right₀ one_le_two (by unfold exponent; omega)

theorem exponent_le {x : ℚ} {k : ℤ} (nonzero : x ≠ 0) (small : |x| < 2 ^ k) (normal : -1021 ≤ k) :
    exponent x ≤ k - 53 := by
  have log : Int.log 2 |x| < k :=
    (Int.lt_zpow_iff_log_lt one_lt_two (abs_pos.mpr nonzero)).mp (by exact_mod_cast small)
  unfold exponent
  omega

theorem rounded_neg (x : ℚ) : rounded (-x) = -rounded x := by
  rw [rounded, rounded, exponent_neg, neg_div, halfEven_neg, Int.cast_neg, neg_mul]

theorem rounded_zero : rounded 0 = 0 := by
  have whole : (0 : ℚ) / 2 ^ exponent 0 = ((0 : ℤ) : ℚ) := by simp
  rw [rounded, whole, halfEven_intCast, Int.cast_zero, zero_mul]

/-- A multiple of the last place stays what it is. -/
theorem rounded_multiple {x : ℚ} {n e : ℤ} (value : x = n * 2 ^ e) (fine : exponent x ≤ e) : rounded x = x := by
  have nonzero := (two_zpow_pos (exponent x)).ne'
  obtain ⟨k, rfl⟩ := Int.le.dest fine
  have mantissa : x / 2 ^ exponent x = ((n * 2 ^ k : ℤ) : ℚ) := by
    rw [div_eq_iff nonzero]
    calc x = n * 2 ^ (exponent x + k) := value
      _ = n * (2 ^ exponent x * 2 ^ k) := by rw [zpow_add₀ two_ne_zero, zpow_natCast]
      _ = ((n * 2 ^ k : ℤ) : ℚ) * 2 ^ exponent x := by
        push_cast
        ring
  rw [rounded, mantissa, halfEven_intCast, ← mantissa, div_mul_cancel₀ x nonzero]

/-- Every integer of 53 bits in a place of the format is a number of it. -/
theorem representable_of_mantissa {n e : ℤ} (small : |n| ≤ 2 ^ 53) (normal : -1074 ≤ e) :
    Representable (n * 2 ^ e) := by
  obtain rfl | nonzero := eq_or_ne n 0
  · rw [Representable, Int.cast_zero, zero_mul, rounded_zero]
  have power := two_zpow_pos e
  have size : |(n : ℚ) * 2 ^ e| = |(n : ℚ)| * 2 ^ e := by rw [abs_mul, abs_of_pos power]
  have exists_ : (n : ℚ) * 2 ^ e ≠ 0 := mul_ne_zero (by exact_mod_cast nonzero) power.ne'
  have shifted : (2 : ℚ) ^ (53 + e) = 2 ^ (53 : ℕ) * 2 ^ e := by
    rw [zpow_add₀ two_ne_zero]
    norm_cast
  obtain less | same := small.lt_or_eq
  · refine rounded_multiple rfl ?_
    have inside : |(n : ℚ) * 2 ^ e| < 2 ^ (53 + e) := by
      rw [size, shifted]
      exact mul_lt_mul_of_pos_right (by exact_mod_cast less) power
    have bound := exponent_le exists_ inside (by omega)
    omega
  · obtain ⟨sign, unit, whole⟩ : ∃ sign : ℤ, |sign| = 1 ∧ n = sign * 2 ^ 52 * 2 := by
      obtain rfl | rfl := (abs_eq (by positivity)).mp same
      · exact ⟨1, by norm_num, by norm_num⟩
      · exact ⟨-1, by norm_num, by norm_num⟩
    refine rounded_multiple (n := sign * 2 ^ 52) (e := e + 1) ?_ ?_
    · rw [whole, zpow_add₀ two_ne_zero, zpow_one]
      push_cast
      ring
    · have inside : |(n : ℚ) * 2 ^ e| < 2 ^ (54 + e) := by
        have double : (2 : ℚ) ^ (54 + e) = 2 * (2 ^ (53 : ℕ) * 2 ^ e) := by
          rw [← shifted, ← zpow_one_add₀ two_ne_zero]
          congr 1
          omega
        have reached : |(n : ℚ)| = 2 ^ 53 := by exact_mod_cast same
        rw [size, double, reached]
        have filled : (0 : ℚ) < 2 ^ 53 * 2 ^ e := by positivity
        linarith
      have bound := exponent_le exists_ inside (by omega)
      omega

theorem abs_mantissa_le (x : ℚ) : |halfEven (x / 2 ^ exponent x)| ≤ 2 ^ 53 := by
  have power := two_zpow_pos (exponent x)
  have inside : |x / 2 ^ exponent x| ≤ ((2 ^ 53 : ℤ) : ℚ) := by
    rw [abs_div, abs_of_pos power, div_le_iff₀ power]
    exact_mod_cast (abs_lt_exponent x).le
  obtain ⟨least, most⟩ := abs_le.mp inside
  rw [abs_le]
  constructor
  · have := halfEven_mono least
    rwa [← Int.cast_neg, halfEven_intCast] at this
  · have := halfEven_mono most
    rwa [halfEven_intCast] at this

theorem representable_rounded (x : ℚ) : Representable (rounded x) :=
  representable_of_mantissa (abs_mantissa_le x) (lowest_le_exponent x)

theorem Representable.neg {x : ℚ} (number : Representable x) : Representable (-x) := by
  rw [Representable, rounded_neg, number]

theorem representable_zero : Representable 0 := rounded_zero

theorem representable_zpow {e : ℤ} (normal : -1074 ≤ e) : Representable (2 ^ e) := by
  have number := representable_of_mantissa (n := 1) (by norm_num) normal
  rwa [Int.cast_one, one_mul] at number

/-- Integers of 53 bits. -/
theorem representable_intCast {n : ℤ} (small : |n| ≤ 2 ^ 53) : Representable n := by
  have number := representable_of_mantissa (e := 0) small (by norm_num)
  rwa [zpow_zero, mul_one] at number

theorem representable_natCast {n : Nat} (small : n ≤ 2 ^ 53) : Representable n := by
  have number := representable_intCast (n := n) (by rw [Nat.abs_cast]; exact_mod_cast small)
  exact_mod_cast number

theorem representable_ofNat (n : Nat) [n.AtLeastTwo] (small : n ≤ 2 ^ 53) : Representable (OfNat.ofNat n) :=
  representable_natCast small

theorem representable_one : Representable 1 := by
  simpa using representable_natCast (n := 1) (by norm_num)

theorem rounded_le {x : ℚ} {n : ℤ} (le : x ≤ n * 2 ^ exponent x) : rounded x ≤ n * 2 ^ exponent x := by
  have power := two_zpow_pos (exponent x)
  have mantissas := halfEven_mono ((div_le_iff₀ power).mpr le)
  rw [halfEven_intCast] at mantissas
  exact mul_le_mul_of_nonneg_right (by exact_mod_cast mantissas) power.le

theorem le_rounded {x : ℚ} {n : ℤ} (le : n * 2 ^ exponent x ≤ x) : n * 2 ^ exponent x ≤ rounded x := by
  have power := two_zpow_pos (exponent x)
  have mantissas := halfEven_mono ((le_div_iff₀ power).mpr le)
  rw [halfEven_intCast] at mantissas
  exact mul_le_mul_of_nonneg_right (by exact_mod_cast mantissas) power.le

theorem rounded_nonneg {x : ℚ} (nonneg : 0 ≤ x) : 0 ≤ rounded x := by
  have least := le_rounded (x := x) (n := 0) (by simpa using nonneg)
  simpa using least

theorem zpow_eq_mul (k e : ℤ) : (2 : ℚ) ^ k = 2 ^ (k - e) * 2 ^ e := by
  rw [← zpow_add₀ two_ne_zero, sub_add_cancel]

/-- Between two numbers whose last places differ lies a power of two. -/
theorem rounded_mono_of_pos {x y : ℚ} (positive : 0 < x) (le : x ≤ y) : rounded x ≤ rounded y := by
  have larger := positive.trans_le le
  obtain less | same := (exponent_mono positive le).lt_or_eq
  · have lowest := lowest_le_exponent x
    have place : exponent y = Int.log 2 y - 52 ∧ exponent x < Int.log 2 y - 52 ∧ Int.log 2 x < Int.log 2 y := by
      unfold exponent at *
      rw [abs_of_pos positive, abs_of_pos larger] at *
      omega
    obtain ⟨place, room, below⟩ := place
    have apart : x < 2 ^ Int.log 2 y := by
      exact_mod_cast (Int.lt_zpow_iff_log_lt one_lt_two positive).mpr below
    have reached : (2 : ℚ) ^ Int.log 2 y ≤ y := by exact_mod_cast Int.zpow_log_le_self one_lt_two larger
    have power {z : ℚ} {j : ℕ} (whole : Int.log 2 y - exponent z = j) :
        (2 : ℚ) ^ Int.log 2 y = ((2 ^ j : ℤ) : ℚ) * 2 ^ exponent z := by
      rw [zpow_eq_mul _ (exponent z), whole, zpow_natCast]
      push_cast
      rfl
    have left := power (z := x) (j := (Int.log 2 y - exponent x).toNat) (by omega)
    have right := power (z := y) (j := 52) (by omega)
    calc rounded x ≤ 2 ^ Int.log 2 y := left ▸ rounded_le (left ▸ apart.le)
      _ ≤ rounded y := right ▸ le_rounded (right ▸ reached)
  · have power := two_zpow_pos (exponent y)
    have mantissas := halfEven_mono (div_le_div_of_nonneg_right le power.le)
    unfold rounded
    rw [same]
    exact mul_le_mul_of_nonneg_right (by exact_mod_cast mantissas) power.le

theorem rounded_mono {x y : ℚ} (le : x ≤ y) : rounded x ≤ rounded y := by
  obtain positive | nonpos := lt_or_ge 0 x
  · exact rounded_mono_of_pos positive le
  · obtain nonneg | negative := le_or_gt 0 y
    · have left := rounded_nonneg (neg_nonneg.mpr nonpos)
      rw [rounded_neg] at left
      exact (neg_nonneg.mp left).trans (rounded_nonneg nonneg)
    · have mirrored := rounded_mono_of_pos (neg_pos.mpr negative) (neg_le_neg le)
      rw [rounded_neg, rounded_neg] at mirrored
      exact neg_le_neg_iff.mp mirrored

/-- Half a unit in the last place. -/
theorem abs_rounded_sub_le (x : ℚ) : |rounded x - x| ≤ 2 ^ exponent x / 2 := by
  have power := two_zpow_pos (exponent x)
  have split : rounded x - x = (halfEven (x / 2 ^ exponent x) - x / 2 ^ exponent x) * 2 ^ exponent x := by
    rw [sub_mul, div_mul_cancel₀ x power.ne']
    rfl
  rw [split, abs_mul, abs_of_pos power]
  calc _ ≤ 1 / 2 * (2 : ℚ) ^ exponent x := mul_le_mul_of_nonneg_right (abs_halfEven_sub_le _) power.le
    _ = 2 ^ exponent x / 2 := by ring

/-- The error of numbers up to a power of two. -/
theorem abs_rounded_sub_le_of_lt {x : ℚ} {k : ℤ} (small : |x| < 2 ^ k) (normal : -1021 ≤ k) :
    |rounded x - x| ≤ 2 ^ (k - 54) := by
  have power := two_zpow_pos (k - 54)
  obtain rfl | nonzero := eq_or_ne x 0
  · rw [rounded_zero, sub_zero, abs_zero]
    exact power.le
  · calc |rounded x - x| ≤ 2 ^ exponent x / 2 := abs_rounded_sub_le x
      _ = 2 ^ (exponent x - 1) := by rw [zpow_sub_one₀ two_ne_zero, div_eq_mul_inv]
      _ ≤ 2 ^ (k - 54) := zpow_le_zpow_right₀ one_le_two (by have := exponent_le nonzero small normal; omega)

section
variable {x y : ℚ}

theorem Representable.le_rounded (number : Representable x) (le : x ≤ y) : x ≤ rounded y :=
  number ▸ rounded_mono le

theorem Representable.rounded_le (number : Representable y) (le : x ≤ y) : rounded x ≤ y :=
  number ▸ rounded_mono le

end

/-! Moving averages. -/

/-- `x += alpha * (u - x)` -/
def ewma (alpha x u : ℚ) : ℚ := add x (mul alpha (sub u x))

theorem representable_ewma (alpha x u : ℚ) : Representable (ewma alpha x u) := representable_rounded _

theorem smallest_pos : 0 < smallest := two_zpow_pos _

theorem Representable.multiple {x : ℚ} (number : Representable x) : ∃ n : ℤ, x = n * smallest := by
  obtain ⟨j, place⟩ := Int.le.dest (lowest_le_exponent x)
  refine ⟨halfEven (x / 2 ^ exponent x) * 2 ^ j, ?_⟩
  have power : (2 : ℚ) ^ exponent x = 2 ^ j * smallest := by
    rw [← place, add_comm, zpow_add₀ two_ne_zero, zpow_natCast, smallest]
  calc x = halfEven (x / 2 ^ exponent x) * 2 ^ exponent x := number.symm
    _ = ((halfEven (x / 2 ^ exponent x) * 2 ^ j : ℤ) : ℚ) * smallest := by
      rw [power]
      push_cast
      ring

/-- Different numbers differ by at least the least positive one. -/
theorem smallest_le_sub {x u : ℚ} (left : Representable x) (right : Representable u) (less : x < u) :
    smallest ≤ u - x := by
  obtain ⟨m, rfl⟩ := left.multiple
  obtain ⟨n, rfl⟩ := right.multiple
  have fewer : m < n := by exact_mod_cast lt_of_mul_lt_mul_right less smallest_pos.le
  have one : (1 : ℚ) ≤ n - m := by exact_mod_cast Int.sub_pos.mpr fewer
  rw [← sub_mul]
  exact le_mul_of_one_le_left smallest_pos.le one

/-- At most half of a difference, rounded twice, does not exceed the difference. -/
theorem portion_le {alpha x u : ℚ} (nonneg : 0 ≤ alpha) (half : alpha ≤ 1 / 2) (left : Representable x)
    (right : Representable u) (less : x < u) : 0 ≤ mul alpha (sub u x) ∧ mul alpha (sub u x) ≤ u - x := by
  have gap : 0 < u - x := sub_pos.mpr less
  have least := rounded_nonneg gap.le
  refine ⟨rounded_nonneg (mul_nonneg nonneg least), ?_⟩
  have base : (2 : ℚ) ^ Int.log 2 (u - x) ≤ u - x := by exact_mod_cast Int.zpow_log_le_self one_lt_two gap
  have normal : -1074 ≤ Int.log 2 (u - x) :=
    (Int.zpow_le_iff_le_log one_lt_two gap).mp (mod_cast smallest_le_sub left right less)
  have next : u - x ≤ 2 ^ (Int.log 2 (u - x) + 1) := by
    exact_mod_cast (Int.lt_zpow_succ_log_self one_lt_two (u - x)).le
  have doubled : rounded (u - x) ≤ 2 * 2 ^ Int.log 2 (u - x) := by
    rw [← zpow_one_add₀ two_ne_zero, add_comm]
    exact (representable_zpow (by omega)).rounded_le next
  have portion : alpha * rounded (u - x) ≤ 2 ^ Int.log 2 (u - x) := by
    have power := two_zpow_pos (Int.log 2 (u - x))
    calc alpha * rounded (u - x) ≤ 1 / 2 * (2 * 2 ^ Int.log 2 (u - x)) := mul_le_mul half doubled least (by norm_num)
      _ = 2 ^ Int.log 2 (u - x) := by ring
  exact ((representable_zpow normal).rounded_le portion).trans base

section
variable {alpha x u : ℚ} (nonneg : 0 ≤ alpha) (half : alpha ≤ 1 / 2) (left : Representable x) (right : Representable u)
include nonneg half left right

/-- The average moves towards the new value and not beyond it. -/
theorem ewma_of_le (le : x ≤ u) : x ≤ ewma alpha x u ∧ ewma alpha x u ≤ u := by
  obtain less | rfl := le.lt_or_eq
  · obtain ⟨least, most⟩ := portion_le nonneg half left right less
    exact ⟨left.le_rounded (by linarith), right.rounded_le (by linarith)⟩
  · have same : ewma alpha x x = x := by
      rw [ewma, sub, sub_self, rounded_zero, mul, mul_zero, rounded_zero, add, add_zero]
      exact left
    exact ⟨same.ge, same.le⟩

end

theorem ewma_neg (alpha x u : ℚ) : ewma alpha (-x) (-u) = -ewma alpha x u := by
  simp only [ewma, add, mul, sub]
  rw [← neg_sub_neg, neg_neg, neg_neg, ← neg_sub, rounded_neg, mul_neg, rounded_neg, ← neg_add, rounded_neg]

section
variable {alpha x u : ℚ} (nonneg : 0 ≤ alpha) (half : alpha ≤ 1 / 2) (left : Representable x) (right : Representable u)
include nonneg half left right

theorem ewma_of_ge (ge : u ≤ x) : u ≤ ewma alpha x u ∧ ewma alpha x u ≤ x := by
  obtain ⟨least, most⟩ := ewma_of_le nonneg half left.neg right.neg (neg_le_neg ge)
  rw [ewma_neg] at least most
  exact ⟨neg_le_neg_iff.mp most, neg_le_neg_iff.mp least⟩

theorem ewma_le {top : ℚ} (first : x ≤ top) (second : u ≤ top) : ewma alpha x u ≤ top := by
  obtain le | ge := le_total x u
  · exact (ewma_of_le nonneg half left right le).2.trans second
  · exact (ewma_of_ge nonneg half left right ge).2.trans first

theorem le_ewma {bottom : ℚ} (first : bottom ≤ x) (second : bottom ≤ u) : bottom ≤ ewma alpha x u := by
  obtain le | ge := le_total x u
  · exact first.trans (ewma_of_le nonneg half left right le).1
  · exact second.trans (ewma_of_ge nonneg half left right ge).1

end

end Binary64
