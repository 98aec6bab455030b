import Mathlib

namespace Rounding

variable {K : Type} [Field K] [LinearOrder K] [IsStrictOrderedRing K] [FloorRing K]

/-! Rounding to integers and to multiples of a unit. -/

/-- The nearest integer; of two the even one. -/
def roundEven (x : K) : ℤ :=
  if x - ⌊x⌋ < 1 / 2 ∨ x - ⌊x⌋ = 1 / 2 ∧ Even ⌊x⌋ then ⌊x⌋ else ⌊x⌋ + 1

@[simp] theorem roundEven_intCast (n : ℤ) : roundEven (n : K) = n := by
  simp [roundEven]

theorem abs_roundEven_sub_le (x : K) : |(roundEven x : K) - x| ≤ 1 / 2 := by
  have lo : (⌊x⌋ : K) ≤ x := Int.floor_le x
  have hi : x < ⌊x⌋ + 1 := Int.lt_floor_add_one x
  unfold roundEven
  split_ifs with h
  · rw [abs_le]
    rcases h with h | ⟨h, -⟩ <;> constructor <;> linarith
  · have half : 1 / 2 ≤ x - ⌊x⌋ := not_lt.mp (fun hc => h (Or.inl hc))
    push_cast
    rw [abs_le]
    constructor <;> linarith

/-- Two integers are not both within less than a half. -/
theorem roundEven_eq_of_near {x : K} {n : ℤ} (h : |x - n| < 1 / 2) : roundEven x = n := by
  have err := abs_roundEven_sub_le x
  have dist : |((roundEven x - n : ℤ) : K)| < 1 := by
    have tri := abs_add_le ((roundEven x : K) - x) (x - n)
    rw [sub_add_sub_cancel] at tri
    push_cast
    linarith
  have zero : roundEven x - n = 0 := by
    rw [← Int.abs_lt_one_iff]
    exact_mod_cast dist
  omega

theorem roundEven_mono : Monotone (roundEven : K → ℤ) := by
  intro x y hxy
  by_contra hlt
  have step : (roundEven y : K) + 1 ≤ roundEven x := by
    exact_mod_cast not_le.mp hlt
  have errx := abs_le.mp (abs_roundEven_sub_le x)
  have erry := abs_le.mp (abs_roundEven_sub_le y)
  -- both are halfway between the two integers, so they are the same number
  have same : x = y := by linarith
  rw [same] at hlt
  exact hlt le_rfl

/-- The nearest multiple of the unit. -/
def toMultiple (u x : K) : K := u * roundEven (x / u)

theorem toMultiple_mul {u : K} (hu : 0 < u) (n : ℤ) : toMultiple u (u * n) = u * n := by
  rw [toMultiple, mul_div_cancel_left₀ _ hu.ne', roundEven_intCast]

theorem abs_toMultiple_sub_le {u : K} (hu : 0 < u) (x : K) : |toMultiple u x - x| ≤ u / 2 := by
  have scaled : toMultiple u x - x = u * (roundEven (x / u) - x / u) := by
    rw [toMultiple, mul_sub, mul_div_cancel₀ _ hu.ne']
  rw [scaled, abs_mul, abs_of_pos hu]
  have err := mul_le_mul_of_nonneg_left (abs_roundEven_sub_le (x / u)) hu.le
  linarith

theorem toMultiple_eq_of_near {u x : K} {n : ℤ} (hu : 0 < u) (h : |x - u * n| < u / 2) :
    toMultiple u x = u * n := by
  have near : |x / u - n| < 1 / 2 := by
    have scaled : x / u - n = (x - u * n) / u := by
      rw [sub_div, mul_div_cancel_left₀ _ hu.ne']
    rw [scaled, abs_div, abs_of_pos hu, div_lt_iff₀ hu]
    linarith
  rw [toMultiple, roundEven_eq_of_near near]

theorem toMultiple_mono {u : K} (hu : 0 < u) : Monotone (toMultiple u : K → K) := by
  intro x y hxy
  have steps : roundEven (x / u) ≤ roundEven (y / u) :=
    roundEven_mono (div_le_div_of_nonneg_right hxy hu.le)
  exact mul_le_mul_of_nonneg_left (by exact_mod_cast steps) hu.le

/-! Numbers with so many significant digits. -/

/-- A number format: digits of a base, and a least exponent if there is one. -/
structure Format where
  base : ℕ
  digits : ℕ
  minExp : Option ℤ
  base_gt : 1 < base
  digits_pos : 0 < digits

namespace Format

variable (f : Format)

/-- The exponent of the last digit. -/
def exponent (x : K) : ℤ :=
  let e := Int.log f.base |x| + 1 - f.digits
  match f.minExp with
  | none => e
  | some m => max m e

/-- The unit in the last place. -/
def ulp (x : K) : K := (f.base : K) ^ f.exponent x

/-- The nearest number of the format, ties to an even last digit. The exponent is unbounded
above. -/
def round (x : K) : K := toMultiple (f.ulp x) x

/-- x has at most so many significant digits. -/
def HasDigits (x : K) : Prop := ∃ m e : ℤ, |m| < (f.base : ℤ) ^ f.digits ∧ x = m * (f.base : K) ^ e

variable {f}

theorem base_pos : (0 : K) < f.base := by
  have := f.base_gt
  exact_mod_cast Nat.lt_of_lt_of_le Nat.zero_lt_one this.le

theorem ulp_pos (x : K) : 0 < f.ulp x := zpow_pos base_pos _

theorem abs_round_sub_le (x : K) : |f.round x - x| ≤ f.ulp x / 2 :=
  abs_toMultiple_sub_le (ulp_pos x) x

@[simp] theorem round_zero : f.round (0 : K) = 0 := by
  have := toMultiple_mul (ulp_pos (f := f) (0 : K)) 0
  simpa [round] using this

/-- Above the least exponent, the error is relative to the number. -/
theorem abs_round_sub_le_mul {m : ℤ} {x : K} (hf : f.minExp = some m)
    (hx : (f.base : K) ^ (m + f.digits - 1) ≤ |x|) :
    |f.round x - x| ≤ |x| * (f.base : K) ^ (1 - f.digits : ℤ) / 2 := by
  have hpos : 0 < |x| := lt_of_lt_of_le (zpow_pos base_pos _) hx
  have hlog : m + f.digits - 1 ≤ Int.log f.base |x| :=
    (Int.zpow_le_iff_le_log f.base_gt hpos).mp hx
  have hulp : f.ulp x ≤ |x| * (f.base : K) ^ (1 - f.digits : ℤ) := by
    have hexp : f.exponent x = Int.log f.base |x| + (1 - f.digits) := by
      simp only [exponent, hf]
      omega
    rw [ulp, hexp, zpow_add₀ base_pos.ne']
    exact mul_le_mul_of_nonneg_right (Int.zpow_log_le_self f.base_gt hpos)
      (zpow_pos base_pos _).le
  have err := abs_round_sub_le (f := f) x
  linarith

/-- A number of so many digits is a multiple of its unit in the last place. -/
theorem HasDigits.eq_mul {x : K} (h : f.HasDigits x) (hx : x ≠ 0) :
    ∃ n : ℤ, x = (f.base : K) ^ (Int.log f.base |x| + 1 - f.digits) * n := by
  obtain ⟨m, e, hm, rfl⟩ := h
  have hb : (0 : K) < f.base := base_pos
  have hpos : 0 < |(m : K) * (f.base : K) ^ e| := abs_pos.mpr hx
  have bound : |(m : K) * (f.base : K) ^ e| < (f.base : K) ^ ((f.digits : ℤ) + e) := by
    rw [abs_mul, abs_of_pos (zpow_pos hb e), zpow_add₀ hb.ne', zpow_natCast]
    refine mul_lt_mul_of_pos_right ?_ (zpow_pos hb e)
    exact_mod_cast hm
  have hlog := (Int.lt_zpow_iff_log_lt f.base_gt hpos).mp bound
  obtain ⟨k, hk⟩ := Int.le.dest (show
    Int.log f.base |(m : K) * (f.base : K) ^ e| + 1 - f.digits ≤ e by omega)
  refine ⟨m * (f.base : ℤ) ^ k, ?_⟩
  have split : (f.base : K) ^ e =
      (f.base : K) ^ (Int.log f.base |(m : K) * (f.base : K) ^ e| + 1 - f.digits) *
        (f.base : K) ^ k := by
    rw [← zpow_natCast, ← zpow_add₀ hb.ne', hk]
  push_cast
  calc (m : K) * (f.base : K) ^ e
      = m * ((f.base : K) ^ (Int.log f.base |(m : K) * (f.base : K) ^ e| + 1 - f.digits) *
          (f.base : K) ^ k) := by rw [← split]
    _ = _ := by ring

/-- Rounding yields a number of so many digits. -/
theorem hasDigits_round (hf : f.minExp = none) (x : K) : f.HasDigits (f.round x) := by
  have hb : (0 : K) < f.base := base_pos
  by_cases hx : x = 0
  · subst hx
    have pow_pos : (0 : ℤ) < (f.base : ℤ) ^ f.digits := by
      have := f.base_gt
      positivity
    exact ⟨0, 0, by simpa using pow_pos, by simp⟩
  have hexp : f.exponent x = Int.log f.base |x| + 1 - f.digits := by simp only [exponent, hf]
  have scaled : |x / f.ulp x| < (f.base : K) ^ f.digits := by
    rw [abs_div, abs_of_pos (ulp_pos x), div_lt_iff₀ (ulp_pos x), ulp, ← zpow_natCast,
      ← zpow_add₀ hb.ne', hexp]
    have above := Int.lt_zpow_succ_log_self f.base_gt |x|
    rwa [add_sub_cancel]
  have steps : |roundEven (x / f.ulp x)| ≤ (f.base : ℤ) ^ f.digits := by
    obtain ⟨lo, hi⟩ := abs_lt.mp scaled
    rw [abs_le]
    constructor
    · have := roundEven_mono lo.le
      have cast : roundEven (-((f.base : K) ^ f.digits)) = -((f.base : ℤ) ^ f.digits) := by
        have := roundEven_intCast (K := K) (-((f.base : ℤ) ^ f.digits))
        push_cast at this
        exact this
      rwa [cast] at this
    · have := roundEven_mono hi.le
      have cast : roundEven ((f.base : K) ^ f.digits) = (f.base : ℤ) ^ f.digits := by
        have := roundEven_intCast (K := K) ((f.base : ℤ) ^ f.digits)
        push_cast at this
        exact this
      rwa [cast] at this
  rcases steps.lt_or_eq with hlt | heq
  · refine ⟨roundEven (x / f.ulp x), f.exponent x, hlt, ?_⟩
    rw [round, toMultiple, mul_comm, ulp]
  · -- the next power of the base has one digit
    refine ⟨(roundEven (x / f.ulp x)).sign, f.exponent x + f.digits, ?_, ?_⟩
    · have one_lt : (1 : ℤ) < (f.base : ℤ) ^ f.digits :=
        one_lt_pow₀ (by exact_mod_cast f.base_gt) f.digits_pos.ne'
      exact lt_of_le_of_lt (by
        rcases Int.sign_trichotomy (roundEven (x / f.ulp x)) with h | h | h <;> simp [h]) one_lt
    · have value : (roundEven (x / f.ulp x) : K) =
          (roundEven (x / f.ulp x)).sign * (f.base : K) ^ f.digits := by
        conv_lhs => rw [← Int.sign_mul_abs (roundEven (x / f.ulp x)), heq]
        push_cast
        rfl
      rw [round, toMultiple, value, zpow_add₀ hb.ne', zpow_natCast, ulp]
      ring

/-- What is near enough to a number of so many digits rounds to it. -/
theorem round_eq_of_near {x y : K} (hf : f.minExp = none) (hx : f.HasDigits x) (hx0 : x ≠ 0)
    (h : |y - x| < (f.base : K) ^ (Int.log f.base |x| + 1 - f.digits) / (2 * f.base)) :
    f.round y = x := by
  have hb : (0 : K) < f.base := base_pos
  have hb2 : (2 : K) ≤ f.base := by exact_mod_cast f.base_gt
  obtain ⟨n, hn⟩ := hx.eq_mul hx0
  obtain ⟨k, hk⟩ : ∃ k, k = Int.log f.base |x| := ⟨_, rfl⟩
  obtain ⟨u, hu⟩ : ∃ u : K, u = (f.base : K) ^ (k + 1 - f.digits) := ⟨_, rfl⟩
  rw [← hk, ← hu] at hn h
  have hupos : 0 < u := hu ▸ zpow_pos hb _
  have hxpos : 0 < |x| := abs_pos.mpr hx0
  have hxlo : (f.base : K) ^ k ≤ |x| := hk ▸ Int.zpow_log_le_self f.base_gt hxpos
  have hxhi : |x| < (f.base : K) ^ (k + 1) := hk ▸ Int.lt_zpow_succ_log_self f.base_gt |x|
  have near : |y - x| < u / 2 := by
    refine lt_of_lt_of_le h ?_
    exact div_le_div_of_nonneg_left hupos.le (by norm_num) (by linarith)
  have small : u / (2 * f.base) ≤ (f.base : K) ^ (k - 1) / 2 := by
    have below : u ≤ (f.base : K) ^ (k - 1) * f.base := by
      rw [hu, ← zpow_add_one₀ hb.ne']
      have := f.digits_pos
      exact zpow_le_zpow_right₀ (by linarith) (by omega)
    rw [div_le_div_iff₀ (by positivity) (by norm_num)]
    linarith
  have power : (f.base : K) ^ k = (f.base : K) ^ (k - 1) * f.base := by
    rw [← zpow_add_one₀ hb.ne', sub_add_cancel]
  have hp : (0 : K) < (f.base : K) ^ (k - 1) := zpow_pos hb _
  have tri := abs_abs_sub_abs_le y x
  have apart := abs_le.mp (tri.trans h.le)
  -- y has as many digits before the point as x, or one less
  have hylo : (f.base : K) ^ (k - 1) ≤ |y| := by
    have := mul_le_mul_of_nonneg_left hb2 hp.le
    linarith
  have hyhi : |y| < (f.base : K) ^ (k + 1) := by
    have top : (f.base : K) ^ (k + 1) = u * (f.base : K) ^ f.digits := by
      rw [hu, ← zpow_natCast, ← zpow_add₀ hb.ne']
      congr 1
      omega
    have scaled : |x| = u * |(n : K)| := by rw [hn, abs_mul, abs_of_pos hupos]
    have steps : |n| + 1 ≤ (f.base : ℤ) ^ f.digits := by
      have hlt : u * |(n : K)| < u * (f.base : K) ^ f.digits := by
        rw [← top, ← scaled]
        exact hxhi
      have := lt_of_mul_lt_mul_left hlt hupos.le
      have : |n| < (f.base : ℤ) ^ f.digits := by exact_mod_cast this
      omega
    have room : |x| + u ≤ (f.base : K) ^ (k + 1) := by
      have cast : |(n : K)| + 1 ≤ (f.base : K) ^ f.digits := by exact_mod_cast steps
      have := mul_le_mul_of_nonneg_left cast hupos.le
      rw [mul_add, mul_one, ← top] at this
      rwa [scaled]
    linarith [(abs_le.mp (tri.trans near.le)).2]
  have hypos : 0 < |y| := hp.trans_le hylo
  have loglo : k - 1 ≤ Int.log f.base |y| := (Int.zpow_le_iff_le_log f.base_gt hypos).mp hylo
  have loghi : Int.log f.base |y| < k + 1 := (Int.lt_zpow_iff_log_lt f.base_gt hypos).mp hyhi
  have hexp : f.exponent y = Int.log f.base |y| + 1 - f.digits := by simp only [exponent, hf]
  rcases (show Int.log f.base |y| = k ∨ Int.log f.base |y| = k - 1 by omega) with hy | hy
  · have hulp : f.ulp y = u := by rw [ulp, hexp, hy, hu]
    rw [round, hulp, hn]
    refine toMultiple_eq_of_near hupos ?_
    rwa [← hn]
  · have hulp : f.ulp y = u / f.base := by
      rw [ulp, hexp, hy, hu, eq_div_iff hb.ne', ← zpow_add_one₀ hb.ne']
      congr 1
      omega
    have hsplit : x = u / f.base * ((f.base * n : ℤ) : K) := by
      push_cast
      rw [hn]
      field_simp
    rw [round, hulp]
    conv_rhs => rw [hsplit]
    refine toMultiple_eq_of_near (div_pos hupos hb) ?_
    rw [← hsplit, div_div, mul_comm (f.base : K) 2]
    exact h

/-- Rounding to a much finer format first changes nothing: what has few digits in f is f's again
after it went through g. -/
theorem round_round {g : Format} {m : ℤ} {x : K} (hf : f.minExp = none) (hg : g.minExp = some m)
    (finer : (f.base : K) ^ (f.digits + 1) ≤ (g.base : K) ^ ((g.digits : ℤ) - 1))
    (hx : (g.base : K) ^ (m + g.digits - 1) ≤ |x|) :
    f.round (g.round x) = x ↔ f.HasDigits x := by
  have hb : (0 : K) < f.base := base_pos
  have hgb : (0 : K) < g.base := base_pos
  constructor
  · intro h
    rw [← h]
    exact hasDigits_round hf _
  · intro h
    have hpos : 0 < |x| := (zpow_pos hgb _).trans_le hx
    refine round_eq_of_near hf h (abs_pos.mp hpos) ?_
    have err := abs_round_sub_le_mul hg hx
    have above := Int.lt_zpow_succ_log_self f.base_gt |x|
    refine lt_of_le_of_lt err ?_
    have hgp : (0 : K) < (g.base : K) ^ ((g.digits : ℤ) - 1) := zpow_pos hgb _
    have inv : (g.base : K) ^ (1 - g.digits : ℤ) = ((g.base : K) ^ ((g.digits : ℤ) - 1))⁻¹ := by
      rw [← zpow_neg, neg_sub]
    have split : (f.base : K) ^ (Int.log f.base |x| + 1) =
        (f.base : K) ^ (Int.log f.base |x| + 1 - f.digits) * (f.base : K) ^ f.digits := by
      rw [← zpow_natCast, ← zpow_add₀ hb.ne', sub_add_cancel]
    have room : |x| * f.base <
        (f.base : K) ^ (Int.log f.base |x| + 1 - f.digits) * (g.base : K) ^ ((g.digits : ℤ) - 1) := by
      calc |x| * f.base
          < (f.base : K) ^ (Int.log f.base |x| + 1 - f.digits) * (f.base : K) ^ f.digits *
              f.base := mul_lt_mul_of_pos_right (split ▸ above) hb
        _ = (f.base : K) ^ (Int.log f.base |x| + 1 - f.digits) *
              (f.base : K) ^ (f.digits + 1) := by rw [pow_succ, mul_assoc]
        _ ≤ _ := mul_le_mul_of_nonneg_left finer (zpow_pos hb _).le
    rw [inv, ← div_eq_mul_inv, div_div, div_lt_div_iff₀ (by positivity) (by positivity)]
    linarith

end Format

end Rounding
