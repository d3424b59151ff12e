import Mathlib.Algebra.Order.Archimedean.Basic
import Mathlib.Data.Int.Log
import Mathlib.Data.Rat.Floor
import Mathlib.Tactic.Linarith
import Mathlib.Tactic.NormNum
import Mathlib.Tactic.Ring

/-!
# Library — doubles

The finite numbers of IEEE 754 binary64 are the rationals that rounding to nearest, ties to even,
leaves as they are.  Exponents have a least value and no largest: a difference that overflows
compares with a double as the infinity does.

* `abs_fl_sub_le`: no double is nearer than the rounded one.
* `fl_eq_of_mul`, `fl_sub_eq_self`: what needs no rounding.
* `Double.sub_lt_iff`: a rounded difference compares as the exact one, unless it hits what it is
  compared with.
-/

namespace Binary64

/-- The exponent of the last place of `x`. -/
def ulpExp (x : ℚ) : ℤ := max (Int.log 2 |x| - 52) (-1074)

/-- The nearest integer, and of two the even one. -/
def roundEven (y : ℚ) : ℤ :=
  if y - ⌊y⌋ < 1 / 2 then ⌊y⌋
  else if 1 / 2 < y - ⌊y⌋ then ⌊y⌋ + 1
  else if ⌊y⌋ % 2 = 0 then ⌊y⌋
  else ⌊y⌋ + 1

/-- `x`, rounded. -/
def fl (x : ℚ) : ℚ := roundEven (x / 2 ^ ulpExp x) * 2 ^ ulpExp x

variable {x y d : ℚ} {n e : ℤ}

/-! ### Integers -/

theorem le_roundEven (h : n ≤ y) : n ≤ roundEven y := by
  have hfloor : n ≤ ⌊y⌋ := Int.le_floor.mpr h
  rw [roundEven]
  split_ifs <;> omega

theorem roundEven_le (h : y ≤ n) : roundEven y ≤ n := by
  rcases h.eq_or_lt with rfl | hlt
  · simp [roundEven]
  · have hfloor : ⌊y⌋ < n := Int.floor_lt.mpr hlt
    rw [roundEven]
    split_ifs <;> omega

theorem roundEven_intCast (n : ℤ) : roundEven n = n :=
  le_antisymm (roundEven_le le_rfl) (le_roundEven le_rfl)

/-- No integer is nearer. -/
theorem abs_roundEven_sub_le (y : ℚ) (n : ℤ) : |(roundEven y : ℚ) - y| ≤ |(n : ℚ) - y| := by
  have hfloor := Int.floor_le y
  have hceil := Int.lt_floor_add_one y
  -- of the integers on its side of `y`, the one next to it is the nearest
  have hn : y - ⌊y⌋ ≤ |(n : ℚ) - y| ∨ ⌊y⌋ + 1 - y ≤ |(n : ℚ) - y| := by
    rcases le_or_gt n ⌊y⌋ with hle | hlt
    · left
      have hcast : (n : ℚ) ≤ ⌊y⌋ := Int.cast_le.mpr hle
      rw [abs_sub_comm]
      exact (sub_le_sub_left hcast y).trans (le_abs_self _)
    · right
      have hcast : (⌊y⌋ : ℚ) + 1 ≤ n := by exact_mod_cast hlt
      exact (sub_le_sub_right hcast y).trans (le_abs_self _)
  have hdown : |(⌊y⌋ : ℚ) - y| = y - ⌊y⌋ := by
    rw [abs_sub_comm]
    exact abs_of_nonneg (sub_nonneg.mpr hfloor)
  have hup : |((⌊y⌋ + 1 : ℤ) : ℚ) - y| = ⌊y⌋ + 1 - y := by
    push_cast
    exact abs_of_nonneg (sub_nonneg.mpr hceil.le)
  rw [roundEven]
  split_ifs
  · rw [hdown]
    rcases hn with hn | hn <;> linarith
  · rw [hup]
    rcases hn with hn | hn <;> linarith
  · rw [hdown]
    rcases hn with hn | hn <;> linarith
  · rw [hup]
    rcases hn with hn | hn <;> linarith

/-! ### What needs no rounding -/

theorem neg_1074_le_ulpExp (x : ℚ) : -1074 ≤ ulpExp x := le_max_right _ _

theorem ulp_pos (x : ℚ) : (0 : ℚ) < 2 ^ ulpExp x := zpow_pos two_pos _

/-- A number has at most 53 binary places above its last one. -/
theorem abs_lt_zpow (h : ulpExp x ≤ e) : |x| < 2 ^ (e + 53) := by
  have hlog : Int.log 2 |x| - 52 ≤ e := (le_max_left _ _).trans h
  refine (Int.lt_zpow_succ_log_self one_lt_two |x|).trans_le ?_
  rw [Nat.cast_ofNat]
  exact zpow_le_zpow_right₀ one_le_two (by omega)

/-- It has fewer only if the last place is the least there is. -/
theorem zpow_le_abs (h : -1074 < ulpExp x) (hx : x ≠ 0) : 2 ^ (ulpExp x + 52) ≤ |x| := by
  have hlog : ulpExp x = Int.log 2 |x| - 52 := max_eq_left (by rw [ulpExp] at h; omega)
  have hle := Int.zpow_log_le_self (b := 2) one_lt_two (abs_pos.mpr hx)
  rw [hlog, sub_add_cancel]
  exact_mod_cast hle

theorem ulpExp_le (hx : x ≠ 0) (h : |x| < 2 ^ (e + 53)) (he : -1074 ≤ e) : ulpExp x ≤ e := by
  refine max_le ?_ he
  have hlog : Int.log 2 |x| < e + 53 :=
    (Int.lt_zpow_iff_log_lt one_lt_two (abs_pos.mpr hx)).mp (by exact_mod_cast h)
  omega

theorem fl_of_mul_ulp (h : x = n * 2 ^ ulpExp x) : fl x = x := by
  have hdiv : x / 2 ^ ulpExp x = n := (div_eq_iff (ulp_pos x).ne').mpr h
  rw [fl, hdiv, roundEven_intCast, ← h]

@[simp] theorem fl_zero : fl 0 = 0 := fl_of_mul_ulp (n := 0) (by simp)

/-- Every multiple of a place that is not too small or too far up is a double. -/
theorem fl_eq_of_mul (h : x = n * 2 ^ e) (hn : |n| ≤ 2 ^ 53) (he : -1074 ≤ e) : fl x = x := by
  rcases eq_or_ne x 0 with rfl | hx
  · exact fl_zero
  have hexact {k m : ℤ} (hm : |m| < 2 ^ 53) (hk : -1074 ≤ k) (h : x = m * 2 ^ k) : fl x = x := by
    have hle : ulpExp x ≤ k := by
      refine ulpExp_le hx ?_ hk
      have hcast : |(m : ℚ)| < 2 ^ (53 : ℤ) := by exact_mod_cast hm
      have hpos : (0 : ℚ) < 2 ^ k := zpow_pos two_pos k
      rw [h, abs_mul, abs_of_pos hpos, add_comm, zpow_add₀ two_ne_zero]
      exact mul_lt_mul_of_pos_right hcast hpos
    refine @fl_of_mul_ulp x (m * 2 ^ (k - ulpExp x).toNat) ?_
    conv_lhs => rw [h]
    rw [Int.cast_mul, mul_assoc, Int.cast_pow, Int.cast_ofNat, ← zpow_natCast,
      ← zpow_add₀ two_ne_zero]
    congr 2
    omega
  rcases hn.lt_or_eq with hlt | heq
  · exact hexact hlt he h
  · -- `2 ^ 53` places are `2 ^ 52` of the next one
    have hdouble (m : ℤ) (hm : n = m * 2) : x = m * 2 ^ (e + 1) := by
      rw [h, hm, zpow_add_one₀ two_ne_zero]
      push_cast
      ring
    rcases (abs_eq (by norm_num)).mp heq with hpos | hneg
    · exact hexact (by norm_num) (by omega) (hdouble (2 ^ 52) (by rw [hpos]; norm_num))
    · exact hexact (by norm_num) (by omega) (hdouble (-2 ^ 52) (by rw [hneg]; norm_num))

/-- What is rounded is a double. -/
theorem fl_fl (x : ℚ) : fl (fl x) = fl x := by
  refine fl_eq_of_mul (n := roundEven (x / 2 ^ ulpExp x)) rfl ?_ (neg_1074_le_ulpExp x)
  have habs := abs_lt_zpow (le_refl (ulpExp x))
  rw [add_comm, zpow_add₀ two_ne_zero, ← div_lt_iff₀ (ulp_pos x)] at habs
  have hdiv : |x / 2 ^ ulpExp x| ≤ ((2 ^ 53 : ℤ) : ℚ) := by
    rw [abs_div, abs_of_pos (ulp_pos x)]
    exact_mod_cast habs.le
  obtain ⟨hlow, hhigh⟩ := abs_le.mp hdiv
  refine abs_le.mpr ⟨le_roundEven ?_, roundEven_le hhigh⟩
  rw [Int.cast_neg]
  exact hlow

/-! ### The nearest double -/

theorem abs_fl_sub_le_mul (x : ℚ) (n : ℤ) : |fl x - x| ≤ |n * 2 ^ ulpExp x - x| := by
  have hscale (m : ℤ) : |(m : ℚ) * 2 ^ ulpExp x - x| =
      |(m : ℚ) - x / 2 ^ ulpExp x| * 2 ^ ulpExp x := by
    have hcancel : ((m : ℚ) - x / 2 ^ ulpExp x) * 2 ^ ulpExp x = m * 2 ^ ulpExp x - x := by
      rw [sub_mul, div_mul_cancel₀ _ (ulp_pos x).ne']
    rw [← hcancel, abs_mul, abs_of_pos (ulp_pos x)]
  rw [fl, hscale, hscale]
  exact mul_le_mul_of_nonneg_right (abs_roundEven_sub_le _ n) (ulp_pos x).le

/-- **No double is nearer** than the rounded one. -/
theorem abs_fl_sub_le (x : ℚ) (hd : fl d = d) : |fl x - x| ≤ |d - x| := by
  rcases eq_or_ne x 0 with rfl | hx
  · rw [fl_zero, sub_zero, abs_zero]
    exact abs_nonneg _
  have hmul : d = roundEven (d / 2 ^ ulpExp d) * 2 ^ ulpExp d := by
    conv_lhs => rw [← hd]
    rfl
  rcases le_or_gt (ulpExp x) (ulpExp d) with hle | hlt
  · have hcoarse : d = ((roundEven (d / 2 ^ ulpExp d) * 2 ^ (ulpExp d - ulpExp x).toNat : ℤ) : ℚ) *
        2 ^ ulpExp x := by
      conv_lhs => rw [hmul]
      rw [Int.cast_mul, mul_assoc, Int.cast_pow, Int.cast_ofNat, ← zpow_natCast,
        ← zpow_add₀ two_ne_zero]
      congr 2
      omega
    conv_rhs => rw [hcoarse]
    exact abs_fl_sub_le_mul x _
  · -- `d` is closer to zero than the least number with the last place of `x`
    have hlow := zpow_le_abs ((neg_1074_le_ulpExp d).trans_lt hlt) hx
    have hd' : |d| ≤ 2 ^ (ulpExp x + 52) := by
      refine (abs_lt_zpow (e := ulpExp x - 1) (by omega)).le.trans_eq ?_
      congr 1
      omega
    have hbound : (2 : ℚ) ^ (ulpExp x + 52) = ((2 ^ 52 : ℤ) : ℚ) * 2 ^ ulpExp x := by
      rw [add_comm, zpow_add₀ two_ne_zero]
      norm_num
    rw [hbound] at hlow hd'
    obtain ⟨hdlow, hdhigh⟩ := abs_le.mp hd'
    rcases lt_or_gt_of_ne hx with hneg | hpos
    · rw [abs_of_neg hneg] at hlow
      refine (abs_fl_sub_le_mul x (-2 ^ 52)).trans ?_
      push_cast at *
      rw [abs_of_nonneg (by linarith), abs_of_nonneg (by linarith)]
      linarith
    · rw [abs_of_pos hpos] at hlow
      refine (abs_fl_sub_le_mul x (2 ^ 52)).trans ?_
      push_cast at *
      rw [abs_of_nonpos (by linarith), abs_of_nonpos (by linarith)]
      linarith

theorem le_fl (hd : fl d = d) (h : d ≤ x) : d ≤ fl x := by
  have hnear := abs_fl_sub_le x hd
  rw [abs_of_nonpos (sub_nonpos.mpr h)] at hnear
  have := (abs_le.mp hnear).1
  linarith

theorem fl_le (hd : fl d = d) (h : x ≤ d) : fl x ≤ d := by
  have hnear := abs_fl_sub_le x hd
  rw [abs_of_nonneg (sub_nonneg.mpr h)] at hnear
  have := (abs_le.mp hnear).2
  linarith

/-- A rounded number compares with a double as the number does, unless it is that double. -/
theorem fl_lt_iff (hd : fl d = d) (h : fl x = d → x = d) : fl x < d ↔ x < d := by
  constructor
  · intro hlt
    by_contra hle
    exact absurd (le_fl hd (not_lt.mp hle)) (not_le.mpr hlt)
  · intro hlt
    exact lt_of_le_of_ne (fl_le hd hlt.le) fun heq => hlt.ne (h heq)

/-- Doubles are whole numbers of the least place. -/
theorem exists_mul_least (hx : fl x = x) : ∃ n : ℤ, x = n * 2 ^ (-1074 : ℤ) := by
  refine ⟨roundEven (x / 2 ^ ulpExp x) * 2 ^ (ulpExp x - -1074).toNat, ?_⟩
  have hle := neg_1074_le_ulpExp x
  conv_lhs => rw [← hx]
  rw [fl, Int.cast_mul, mul_assoc, Int.cast_pow, Int.cast_ofNat, ← zpow_natCast,
    ← zpow_add₀ two_ne_zero]
  congr 2
  omega

/-- What is taken off a double in its own places leaves a double. -/
theorem fl_sub_eq_self (hx : fl x = x) (hy : y = n * 2 ^ ulpExp x) (h0 : 0 ≤ y) (hle : y ≤ x) :
    fl (x - y) = x - y := by
  have hsub : x - y = ((roundEven (x / 2 ^ ulpExp x) - n : ℤ) : ℚ) * 2 ^ ulpExp x := by
    rw [Int.cast_sub, sub_mul, ← hy]
    conv_lhs => rw [← hx]
    rfl
  refine fl_eq_of_mul hsub ?_ (neg_1074_le_ulpExp x)
  have hsmall : |x - y| < 2 ^ (ulpExp x + 53) := by
    refine lt_of_le_of_lt ?_ (abs_lt_zpow (le_refl (ulpExp x)))
    rw [abs_of_nonneg (sub_nonneg.mpr hle)]
    exact (sub_le_self x h0).trans (le_abs_self x)
  rw [hsub, abs_mul, abs_of_pos (ulp_pos x), add_comm, zpow_add₀ two_ne_zero,
    mul_lt_mul_iff_left₀ (ulp_pos x)] at hsmall
  exact_mod_cast hsmall.le

end Binary64

open Binary64

/-- A finite double. -/
abbrev Double := { x : ℚ // fl x = x }

namespace Double

/-- The difference, rounded. -/
instance : Sub Double := ⟨fun x y => ⟨fl (x.val - y.val), fl_fl _⟩⟩

/-- A literal stands for the double nearest to it. -/
instance (n : ℕ) : OfNat Double n := ⟨⟨fl n, fl_fl _⟩⟩

instance : OfScientific Double := ⟨fun m s e => ⟨fl (OfScientific.ofScientific m s e), fl_fl _⟩⟩

variable {x w t : Double} {n e : ℤ}

/-- The difference is `t` only where it is so without rounding. -/
def Clear (x w t : Double) : Prop := x - w = t → x.val - w.val = t.val

instance (x w t : Double) : Decidable (Clear x w t) := inferInstanceAs (Decidable (_ → _))

/-- Rounding brings no difference below what it was not below. -/
theorem sub_lt_of_sub_lt (h : x - w < t) : x.val - w.val < t.val := by
  by_contra hle
  exact absurd (le_fl t.prop (not_lt.mp hle)) (not_le.mpr h)

/-- **A rounded difference** compares as the exact one, unless it hits what it is compared with. -/
theorem sub_lt_iff (h : Clear x w t) : x - w < t ↔ x.val - w.val < t.val :=
  fl_lt_iff t.prop fun heq => h (Subtype.ext heq)

/-- A difference in the places of `x` hits nothing that is not negative. -/
theorem clear_of_mul (ht : 0 ≤ t.val) (hw : w.val = n * 2 ^ e) (hw₀ : 0 ≤ w.val)
    (hx : ulpExp x.val ≤ e) : Clear x w t := by
  intro hhit
  have hval : fl (x.val - w.val) = t.val := congrArg Subtype.val hhit
  rcases lt_or_ge x.val w.val with hlt | hle
  · -- a negative difference is below zero by a whole place
    obtain ⟨a, ha⟩ := exists_mul_least x.prop
    obtain ⟨b, hb⟩ := exists_mul_least w.prop
    have hpos : (0 : ℚ) < 2 ^ (-1074 : ℤ) := zpow_pos two_pos _
    have hab : a < b := by
      rw [ha, hb] at hlt
      exact_mod_cast lt_of_mul_lt_mul_right hlt hpos.le
    have hleast : fl ((-1 : ℤ) * 2 ^ (-1074 : ℤ)) = (-1 : ℤ) * 2 ^ (-1074 : ℤ) :=
      fl_eq_of_mul rfl (by norm_num) le_rfl
    have hdown : x.val - w.val ≤ (-1 : ℤ) * 2 ^ (-1074 : ℤ) := by
      rw [ha, hb, ← sub_mul]
      refine mul_le_mul_of_nonneg_right ?_ hpos.le
      exact_mod_cast (by omega : a - b ≤ -1)
    have hneg : t.val ≤ (-1 : ℤ) * 2 ^ (-1074 : ℤ) := hval ▸ fl_le hleast hdown
    have hbelow : ((-1 : ℤ) : ℚ) * 2 ^ (-1074 : ℤ) < 0 := mul_neg_of_neg_of_pos (by norm_num) hpos
    exact absurd ht (not_le.mpr (hneg.trans_lt hbelow))
  · have hplaces : w.val = ((n * 2 ^ (e - ulpExp x.val).toNat : ℤ) : ℚ) * 2 ^ ulpExp x.val := by
      rw [hw, Int.cast_mul, mul_assoc, Int.cast_pow, Int.cast_ofNat, ← zpow_natCast,
        ← zpow_add₀ two_ne_zero]
      congr 2
      omega
    rw [← hval, fl_sub_eq_self x.prop hplaces hw₀ hle]

end Double
