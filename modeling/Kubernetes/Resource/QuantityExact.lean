import Kubernetes.Resource.QuantityGrammar
import Mathlib.Algebra.Order.Group.MinMax

/-! # When a parsed quantity is the number denoted

Both paths of `ParseQuantity` compute the coefficient of a literal times a power of ten,
whose exponent they keep in an `int32`. So the quantity is the one of the exponent modulo
`2 ^ 32`, rounded and capped.

Results:

1. `setString_literal`, `Dec.toRat_roundUp`, `int64Multiply_eq`: the arithmetic of the paths;
2. `Literal.toRat_eq`: the number of a parsed quantity, on either path;
3. `parsed_exact_iff`: for which strings it is the number denoted.
-/

namespace Kubernetes.Resource

open Decimal List Int

/-! ## `inf.Dec` -/

variable (l : Literal)

namespace Dec

/-- The loop of `scan` over digits: they are collected, and the first one is noted. -/
lemma scanLoop_digits {ds : List Char} (hds : AllDigits ds) :
    ∀ (rest unscaled : List Char) (dp dg : Option Nat),
      ∃ dg', scanLoop (ds ++ rest) unscaled dp dg = scanLoop rest (unscaled ++ ds) dp dg' ∧
        (dg' = none ↔ dg = none ∧ ds = []) := by
  induction ds with
  | nil =>
    intro rest unscaled dp dg
    exact ⟨dg, by rw [append_nil, nil_append], by simp⟩
  | cons c ds ih =>
    intro rest unscaled dp dg
    have hc : c.isDigit = true := hds c mem_cons_self
    have hsign : ¬ (c = '+' ∨ c = '-') := by
      rintro (rfl | rfl) <;> cases hc
    have hpoint : c ≠ '.' := by
      rintro rfl
      cases hc
    have htail : AllDigits ds := (forall_mem_cons.1 hds).2
    obtain ⟨dg', heq, hnone⟩ := ih htail rest (unscaled ++ [c]) dp (some (dg.getD unscaled.length))
    refine ⟨dg', ?_, ?_⟩
    · rw [cons_append, scanLoop, if_neg hsign, if_neg hpoint, if_pos hc, heq]
      simp
    · rw [hnone]
      simp

lemma scanLoop_sign (sign : Sign) (rest : List Char) :
    scanLoop (sign.text ++ rest) [] none none = scanLoop rest sign.text none none := by
  cases sign <;> rfl

open Literal

/-- A number is read exactly: all its digits, at the scale of those after the point. -/
theorem setString_literal :
    setString (l.sign.text ++ (l.whole ++ l.fracText)) =
      some ⟨l.sign.apply (ofDigits (l.whole ++ l.frac) : Int), int32 l.frac.length⟩ := by
  obtain ⟨dg1, hwhole, hdg1⟩ := scanLoop_digits l.whole_digits l.fracText l.sign.text none none
  have hdigits : AllDigits (l.whole ++ l.frac) :=
    allDigits_append.2 ⟨l.whole_digits, l.frac_digits⟩
  have hint := parseInt_text l.sign l.some_digit hdigits
  unfold setString
  rw [scanLoop_sign, hwhole]
  cases hp : l.point with
  | false =>
    have hfrac : l.frac = [] := l.frac_point hp
    have hdg : dg1 ≠ none := by
      intro hnone
      have hnil := (hdg1.1 hnone).2
      exact l.some_digit (by rw [hnil, hfrac]; rfl)
    rw [hfrac, append_nil] at hint
    rw [fracText, hp, if_neg Bool.false_ne_true, scanLoop]
    dsimp only
    rw [if_neg hdg, hint, hfrac, append_nil]
    rfl
  | true =>
    obtain ⟨dg2, hfrac, hdg2⟩ :=
      scanLoop_digits l.frac_digits [] (l.sign.text ++ l.whole) (some (l.sign.text ++ l.whole).length) dg1
    have hdg : dg2 ≠ none := by
      intro hnone
      obtain ⟨hnone1, hnil⟩ := hdg2.1 hnone
      have hnil1 := (hdg1.1 hnone1).2
      exact l.some_digit (by rw [hnil, hnil1]; rfl)
    rw [append_nil] at hfrac
    have hpoint : scanLoop ('.' :: l.frac) (l.sign.text ++ l.whole) none dg1 =
        scanLoop l.frac (l.sign.text ++ l.whole) (some (l.sign.text ++ l.whole).length) dg1 := rfl
    rw [fracText, hp, if_pos rfl, hpoint, hfrac, scanLoop]
    dsimp only
    rw [if_neg hdg, append_assoc, hint]
    dsimp only
    rw [if_pos rfl]
    congr 3
    simp only [length_append]
    push_cast
    ring

lemma toRat_neg (x : Dec) : x.neg.toRat = -x.toRat := by
  simp [toRat, neg]

/-- `Round` with `RoundUp`, for an amount that is not negative. -/
theorem toRat_roundUp {x : Dec} (hx : 0 ≤ x.unscaled) (scale : Int) :
    (x.roundUp scale).toRat = Decimal.roundUp (10 ^ (-scale)) x.toRat := by
  have hten : (10 : ℚ) ≠ 0 := by norm_num
  have hquot : x.toRat / 10 ^ (-scale) = x.unscaled * 10 ^ (scale - x.scale) := by
    rw [toRat, mul_div_assoc, ← zpow_sub₀ hten]
    congr 2
    ring
  rw [Decimal.roundUp, hquot, toRat]
  show ((x.roundUp scale).unscaled : ℚ) * _ = _
  congr 2
  unfold roundUp
  dsimp only
  rcases lt_or_ge (scale - x.scale) 0 with hshift | hshift
  · -- the divisor is shifted: a quotient, and one more for a remainder
    obtain ⟨m, hm⟩ : ∃ m : Nat, scale - x.scale = -(m : Int) := ⟨(-(scale - x.scale)).toNat, by omega⟩
    have hdiv : (x.unscaled : ℚ) * 10 ^ (scale - x.scale) = x.unscaled / (10 ^ m : Nat) := by
      rw [hm, zpow_neg, zpow_natCast, div_eq_mul_inv]
      push_cast
      rfl
    have hpow : (0 : Int) < 10 ^ m := by positivity
    have hdividend : (if scale - x.scale > 0 then x.unscaled * 10 ^ (scale - x.scale).toNat
        else x.unscaled) = x.unscaled := if_neg (by omega)
    have hdivisor : (if scale - x.scale < 0 then (10 : Int) ^ (-(scale - x.scale)).toNat else 1) =
        10 ^ m := by
      rw [if_pos hshift, hm, neg_neg, toNat_natCast]
    rw [hdiv, ceil_intCast_div _ (by positivity), hdividend, hdivisor,
      tdiv_eq_ediv_of_nonneg hx, tmod_eq_emod_of_nonneg hx]
    push_cast
    split_ifs with hrem
    · have hpos : 0 < x.unscaled % 10 ^ m := lt_of_le_of_ne (emod_nonneg _ hpow.ne') (Ne.symm hrem)
      rw [sign_eq_one_of_pos hpos, sign_eq_one_of_pos hpow, one_mul]
    · rfl
  · -- the dividend is shifted: the quotient is exact
    obtain ⟨n, hn⟩ : ∃ n : Nat, scale - x.scale = n := ⟨(scale - x.scale).toNat, by omega⟩
    have hmul : (x.unscaled : ℚ) * 10 ^ (scale - x.scale) = ((x.unscaled * 10 ^ n : Int) : ℚ) := by
      rw [hn, zpow_natCast]
      push_cast
      rfl
    have hdividend : (if scale - x.scale > 0 then x.unscaled * 10 ^ (scale - x.scale).toNat
        else x.unscaled) = x.unscaled * 10 ^ n := by
      rw [hn, toNat_natCast]
      split
      · rfl
      · have hzero : n = 0 := by omega
        rw [hzero, pow_zero, mul_one]
    rw [hdividend, if_neg (not_lt.2 hshift), Int.tmod_one, Int.tdiv_one, hmul, Int.ceil_intCast]
    simp

/-- The unscaled number at the greater of two scales. -/
lemma cast_upscale (x y : Dec) : ((x.unscaled * 10 ^ (y.scale - x.scale).toNat : Int) : ℚ) =
    x.toRat * 10 ^ max x.scale y.scale := by
  have hexp : ((y.scale - x.scale).toNat : Int) = -x.scale + max x.scale y.scale := by omega
  rw [toRat, mul_assoc, ← zpow_add₀ (by norm_num), ← hexp, zpow_natCast]
  push_cast
  rfl

lemma cmp_eq (x y : Dec) : x.cmp y = compare x.toRat y.toRat := by
  have hpow : (0 : ℚ) < 10 ^ max x.scale y.scale := zpow_pos (by norm_num) _
  unfold cmp
  rw [← cmp_eq_compare, ← cmp_eq_compare, ← (cast_strictMono (R := ℚ)).cmp_map_eq,
    cast_upscale x y, cast_upscale y x, max_comm y.scale, cmp_mul_pos_right hpow]

end Dec

theorem int64Multiply_eq {a b c : Int} (ha : 0 ≤ a) (ha' : a < 2 ^ 63) (hb : 0 < b)
    (hb' : b < 2 ^ 63) (h : int64Multiply a b = some c) : c = a * b ∧ c < 2 ^ 63 := by
  unfold int64Multiply at h
  split at h
  · -- one factor is trivial, and the product in the range
    rename_i htriv
    cases h
    have hrange : IsInt64 (a * b) := by
      unfold IsInt64
      rcases htriv with rfl | rfl | rfl | rfl <;> omega
    rw [hrange.int64_eq]
    exact ⟨rfl, hrange.2⟩
  · split_ifs at h
    obtain ⟨hquot, heq⟩ := Option.ite_none_right_eq_some.1 h
    cases heq
    have hrange := isInt64_of_tdiv hb hb' hquot
    rw [hrange.int64_eq]
    exact ⟨rfl, hrange.2⟩

/-! ## The number of a parsed quantity -/

def Factor.isBinary : Factor → Bool
  | .ten _ => false
  | .two _ => true

def Factor.coefficient : Factor → Nat
  | .ten _ => 1
  | .two k => 2 ^ k

def Factor.exponent : Factor → Int
  | .ten e => e
  | .two _ => 0

namespace Literal

/-- All the digits, times the power of two of a binary suffix. -/
def coefficient : Nat := ofDigits (l.whole ++ l.frac) * l.factor.coefficient

/-- The power of ten that goes with the coefficient. -/
def exponent : Int := l.factor.exponent - l.frac.length

open Factor

lemma number_eq : l.number = l.sign.apply ((l.coefficient : ℚ) * 10 ^ l.exponent) := by
  have hten : (10 : ℚ) ≠ 0 := by norm_num
  rw [number, coefficient, exponent]
  congr 1
  cases l.factor with
  | ten e =>
    simp only [Factor.toRat, Factor.coefficient, Factor.exponent, mul_one]
    rw [zpow_sub₀ hten, zpow_natCast, div_mul_eq_mul_div, mul_div_assoc]
  | two k =>
    simp only [Factor.toRat, Factor.coefficient, Factor.exponent, zero_sub, zpow_neg, zpow_natCast]
    push_cast
    ring

end Literal

/-- The unit of all quantities. -/
def unit : ℚ := 10 ^ (-9 : Int)

/-- The greatest number of a binary quantity. -/
def cap : ℚ := 2 ^ 63 - 1

/-- The magnitude of a quantity: rounded up, and capped if it is binary. -/
def settle (binary : Bool) (x : ℚ) : ℚ :=
  if binary then min cap (roundUp unit x) else roundUp unit x

lemma unit_pos : 0 < unit := by
  unfold unit
  positivity

lemma settle_zero (binary : Bool) : settle binary 0 = 0 := by
  have hcap : (0 : ℚ) ≤ cap := by norm_num [cap]
  cases binary with
  | false => exact roundUp_zero
  | true =>
    show min cap (roundUp unit 0) = 0
    rw [roundUp_zero, min_eq_right hcap]

/-- The exponent that a conversion to a scale, the negated exponent, leaves. -/
def wrap (e : Int) : Int := -int32 (-e)

lemma wrap_eq_self {e : Int} : wrap e = e ↔ -2 ^ 31 < e ∧ e ≤ 2 ^ 31 := by
  unfold wrap int32
  omega

/-! ### The path with `inf.Dec` -/

lemma Dec.toRat_roundAndCap {x : Dec} (hx : 0 ≤ x.unscaled) (format : Format) :
    (x.roundAndCap format).toRat = settle (format = .binarySI) x.toRat := by
  have hround : (if x.unscaled ≠ 0 then x.roundUp (-nano) else x).toRat = Decimal.roundUp unit x.toRat := by
    split_ifs with hzero
    · exact toRat_roundUp hx _
    · rw [not_not] at hzero
      simp [toRat, hzero, roundUp_zero]
  have hmax : maxAllowed.toRat = cap := by
    norm_num [maxAllowed, toRat, cap]
  unfold roundAndCap settle
  obtain ⟨y, hy⟩ : ∃ y, (if x.unscaled ≠ 0 then x.roundUp (-nano) else x) = y := ⟨_, rfl⟩
  rw [hy] at hround
  rw [hy, ← hround]
  by_cases hbin : format = .binarySI
  · simp only [hbin, true_and, decide_true, if_true, cmp_eq, compare_gt_iff_gt, hmax]
    split_ifs with hgt
    · rw [hmax, min_eq_left hgt.le]
    · rw [min_eq_right (not_lt.1 hgt)]
  · simp [hbin]

variable {f : Factor} {pair : BEPair} {format : Format}

open Sign

/-- The amount after the suffix was applied. -/
lemma Dec.applySuffix_represents (h : f.Represents pair format) (sign : Sign) (n : Nat)
    (frac : Nat) :
    (⟨sign.apply (n : Int), int32 frac⟩ : Dec).applySuffix pair.base pair.exponent =
      ⟨sign.apply ((n * f.coefficient : Nat) : Int), int32 (frac - f.exponent)⟩ := by
  cases f with
  | ten e =>
    obtain ⟨rfl, -⟩ := h
    simp only [applySuffix, Factor.coefficient, Factor.exponent, mul_one, if_true]
    rw [int32_neg, int32_add, sub_eq_add_neg]
  | two k =>
    obtain ⟨rfl, -, -⟩ := h
    have hbase : ¬ (2 : Int) = 10 := by decide
    simp only [applySuffix, Factor.coefficient, Factor.exponent, hbase, if_false, if_true, sub_zero,
      Int.toNat_natCast]
    congr 1
    cases sign <;> simp [Sign.apply]

lemma Factor.Represents.isBinary (h : f.Represents pair format) :
    decide (format = .binarySI) = f.isBinary := by
  cases f with
  | ten e => exact decide_eq_false h.2
  | two k => exact decide_eq_true h.2.1

/-- The sign is taken off before the rounding and put on after it. -/
lemma Dec.toRat_signed (sign : Sign) (n : Nat) (scale : Int) (format : Format) :
    let x : Dec := ⟨sign.apply (n : Int), scale⟩
    (if x.unscaled.sign = -1 then ((if x.unscaled.sign = -1 then x.neg else x).roundAndCap format).neg
      else (if x.unscaled.sign = -1 then x.neg else x).roundAndCap format).toRat =
      sign.apply (settle (format = .binarySI) ((n : ℚ) * 10 ^ (-scale))) := by
  have hsettle : (roundAndCap ⟨n, scale⟩ format).toRat =
      settle (format = .binarySI) ((n : ℚ) * 10 ^ (-scale)) := by
    rw [toRat_roundAndCap (natCast_nonneg n)]
    simp [toRat]
  have hpos : ¬ (n : Int).sign = -1 := by
    rw [sign_eq_neg_one_iff_neg]
    omega
  dsimp only
  cases sign with
  | none =>
    rw [apply_none, apply_none, if_neg hpos, if_neg hpos]
    exact hsettle
  | plus =>
    rw [apply_plus, apply_plus, if_neg hpos, if_neg hpos]
    exact hsettle
  | minus =>
    rw [apply_minus, apply_minus]
    by_cases hn : n = 0
    · -- there is no negative zero
      subst hn
      have hzero : settle (format = .binarySI) (((0 : Nat) : ℚ) * 10 ^ (-scale)) = 0 := by
        rw [Nat.cast_zero, zero_mul, settle_zero]
      rw [hzero] at hsettle ⊢
      rw [Nat.cast_zero] at hsettle ⊢
      rw [neg_zero, neg_zero, if_neg (by decide), if_neg (by decide)]
      exact hsettle
    · have hneg : (-(n : Int)).sign = -1 := by
        rw [sign_eq_neg_one_iff_neg]
        omega
      rw [if_pos hneg, if_pos hneg, toRat_neg]
      simp only [neg, neg_neg]
      rw [hsettle]

variable {l : Literal} {parts : Scanned}

/-- The scanned text of the number is read exactly. -/
lemma Literal.Scans.setString (h : l.Scans parts) :
    Dec.setString parts.value =
      some ⟨l.sign.apply (ofDigits (l.whole ++ l.frac) : Int), int32 l.frac.length⟩ := by
  rcases h.value with hvalue | ⟨hvalue, hwhole, hfrac⟩
  · rw [hvalue]
    exact Dec.setString_literal l
  · rw [hvalue, hfrac, append_nil, hwhole]
    cases l.sign <;> rfl

variable {q : Quantity}

lemma slowPath_toRat (hl : l.Scans parts) (hf : l.factor.Represents pair format)
    (h : slowPath parts pair.base pair.exponent format = .ok q) :
    q.toRat = l.sign.apply (settle l.factor.isBinary (l.coefficient * 10 ^ wrap l.exponent)) := by
  have hexp : wrap l.exponent = -int32 (l.frac.length - l.factor.exponent) := by
    rw [wrap, Literal.exponent, neg_sub]
  unfold slowPath at h
  rw [hl.setString] at h
  dsimp only at h
  rw [Dec.applySuffix_represents hf] at h
  cases h
  rw [hexp, ← hf.isBinary]
  exact Dec.toRat_signed l.sign l.coefficient _ format

/-! ### The path in `int64` -/

lemma shiftedScale_represents (hf : f.Represents pair format) (denom : List Char) :
    shiftedScale format pair.exponent denom = int32 (f.exponent - denom.length) := by
  cases f with
  | ten e =>
    obtain ⟨rfl, hformat⟩ := hf
    cases format with
    | binarySI => exact absurd rfl hformat
    | decimalExponent => exact int32_sub e denom.length
    | decimalSI => exact int32_sub e denom.length
  | two k =>
    obtain ⟨rfl, rfl, -⟩ := hf
    exact int32_sub 0 denom.length

/-- The power of two of a binary suffix fits, and a fraction never comes to it. -/
lemma mantissa_represents (hf : f.Represents pair format) {num denom : List Char}
    (hprecision : 0 ≤ precision format pair.exponent num denom) :
    mantissa format pair.exponent denom = f.coefficient ∧ (f.isBinary → denom = []) := by
  cases f with
  | ten e =>
    obtain ⟨rfl, hformat⟩ := hf
    cases format with
    | binarySI => exact absurd rfl hformat
    | decimalExponent => exact ⟨rfl, fun h => by cases h⟩
    | decimalSI => exact ⟨rfl, fun h => by cases h⟩
  | two k =>
    obtain ⟨rfl, rfl, hk⟩ := hf
    have hcond : (k : Int) ≥ 0 ∧ denom.length = 0 := by
      by_contra hnot
      simp only [precision, if_neg hnot] at hprecision
      omega
    have hfits : int64 (2 ^ k) = 2 ^ k := by
      have hpow : (2 : Int) ^ k ≤ 2 ^ 60 := pow_le_pow_right₀ (by norm_num) hk
      have hpos : (0 : Int) < 2 ^ k := by positivity
      exact int64_of_bounds (by omega) (by omega)
    refine ⟨?_, fun _ => length_eq_zero_iff.1 hcond.2⟩
    simp only [mantissa, if_pos hcond, Int.toNat_natCast, hfits, Factor.coefficient]
    rfl

lemma atoi_digits {s : List Char} (hne : s ≠ []) (hs : AllDigits s) {n : Int}
    (h : atoi s = some n) : n = ofDigits s ∧ n < 2 ^ 63 := by
  have hint := parseInt_text .none hne hs
  rw [text, nil_append] at hint
  rw [atoi, hint] at h
  obtain ⟨hsome, hrange⟩ := Option.filter_eq_some_iff.1 h
  cases hsome
  exact ⟨rfl, (of_decide_eq_true hrange).2⟩

/-- A coefficient at a scale of at least `-9` is a multiple of the unit. -/
lemma roundUp_scaled (n : Nat) {scale : Int} (h : -9 ≤ scale) :
    roundUp unit ((n : ℚ) * 10 ^ scale) = n * 10 ^ scale := by
  obtain ⟨m, hm⟩ : ∃ m : Nat, scale = m + -9 := ⟨(scale + 9).toNat, by omega⟩
  have hmul : (n : ℚ) * 10 ^ scale = ((n * 10 ^ m : Int) : ℚ) * unit := by
    rw [hm, zpow_add₀ (by norm_num), zpow_natCast, unit]
    push_cast
    ring
  rw [hmul]
  exact roundUp_mul unit_pos _

lemma Factor.Represents.coefficient_bounds (h : f.Represents pair format) :
    0 < (f.coefficient : Int) ∧ (f.coefficient : Int) < 2 ^ 63 := by
  cases f with
  | ten e => simp [coefficient]
  | two k =>
    have hpow : 2 ^ k ≤ 2 ^ 60 := Nat.pow_le_pow_right (by norm_num) h.2.2
    have hpos : 0 < 2 ^ k := by positivity
    simp only [coefficient]
    omega

/-- The fast path neither rounds nor caps, and need not. -/
lemma settle_scaled {scale : Int} (hscale : -9 ≤ scale)
    (hbinary : l.factor.isBinary = true → scale = 0 ∧ (l.coefficient : Int) < 2 ^ 63) :
    settle l.factor.isBinary ((l.coefficient : ℚ) * 10 ^ scale) = l.coefficient * 10 ^ scale := by
  unfold settle
  rw [roundUp_scaled l.coefficient hscale]
  split_ifs with hbin
  · obtain ⟨rfl, hlt⟩ := hbinary hbin
    have hle : (l.coefficient : Int) ≤ 2 ^ 63 - 1 := by omega
    have hcap : (l.coefficient : ℚ) ≤ cap := by
      unfold cap
      exact_mod_cast hle
    rw [zpow_zero, mul_one, min_eq_right hcap]
  · rfl

lemma fastPath_toRat {str : List Char} (hl : l.Scans parts) (hf : l.factor.Represents pair format)
    (h : fastPath str parts pair.exponent format = some (.ok q)) :
    q.toRat = l.sign.apply (settle l.factor.isBinary (l.coefficient * 10 ^ wrap l.exponent)) := by
  unfold fastPath at h
  dsimp only at h
  obtain ⟨⟨hprecision, hnano⟩, hsome⟩ := Option.ite_none_right_eq_some.1 h
  obtain ⟨hmantissa, hfraction⟩ := mantissa_represents hf hprecision
  have hscale := shiftedScale_represents hf parts.denom
  rw [hmantissa] at hsome
  rw [hscale, hl.denom] at hnano hsome
  -- the scale as the code computes it, and as the literal says it
  have hexp : int32 (l.factor.exponent - l.frac.length) = wrap l.exponent := by
    rw [Literal.exponent]
    unfold nano at hnano
    unfold wrap int32 at *
    omega
  rw [hexp] at hnano hsome
  cases hv : atoi (parts.num ++ l.frac) with
  | none =>
    rw [hv] at hsome
    cases hsome
  | some value =>
    rw [hv] at hsome
    obtain ⟨result, hmul, heq⟩ := Option.map_eq_some_iff.1 hsome
    cases heq
    have hdigits : AllDigits (parts.num ++ l.frac) :=
      allDigits_append.2 ⟨hl.num_digits, l.frac_digits⟩
    have hne : parts.num ++ l.frac ≠ [] := fun hnil => hl.num_ne_nil (append_eq_nil_iff.1 hnil).1
    obtain ⟨hvalue, hlt⟩ := atoi_digits hne hdigits hv
    have hall : ofDigits (parts.num ++ l.frac) = ofDigits (l.whole ++ l.frac) := by
      rw [ofDigits_append, ofDigits_append, hl.num]
    obtain ⟨hpos, hfits⟩ := hf.coefficient_bounds
    obtain ⟨hresult, hresultlt⟩ := int64Multiply_eq (by omega) hlt hpos hfits hmul
    have hcoeff : result = l.coefficient := by
      rw [hresult, hvalue, hall, Literal.coefficient]
      rfl
    rw [hcoeff] at hresultlt
    -- a binary literal comes here without a fraction only
    have hbinary : l.factor.isBinary = true → wrap l.exponent = 0 ∧ (l.coefficient : Int) < 2 ^ 63 := by
      intro hbin
      have hfrac : l.frac = [] := hl.denom ▸ hfraction hbin
      refine ⟨?_, hresultlt⟩
      rw [Literal.exponent, hfrac]
      cases hfactor : l.factor with
      | ten e => simp [hfactor, Factor.isBinary] at hbin
      | two k => rfl
    rw [settle_scaled hnano hbinary, hcoeff, Quantity.toRat]
    show ((if parts.positive = true then (l.coefficient : Int) else -l.coefficient : Int) : ℚ) *
      10 ^ wrap l.exponent = _
    rw [hl.positive]
    cases l.sign with
    | none => simp
    | plus => simp
    | minus => simp

/-- The number of a parsed quantity, on either path: that of the literal with its exponent
wrapped, rounded and capped. -/
theorem Literal.toRat_eq (l : Literal) (h : parseQuantity l.text = .ok q) :
    q.toRat = l.sign.apply (settle l.factor.isBinary (l.coefficient * 10 ^ wrap l.exponent)) := by
  obtain ⟨parts, hparts, hl⟩ := l.scans
  unfold parseQuantity at h
  split at h
  · cases h
  split_ifs at h with hzero
  · -- the string "0"
    cases h
    rw [hzero] at hparts
    cases hparts
    have hwhole : ofDigits l.whole = 0 := hl.num.symm
    have hfrac : l.frac = [] := hl.denom.symm
    have hcoeff : l.coefficient = 0 := by
      rw [coefficient, hfrac, append_nil, hwhole, zero_mul]
    rw [hcoeff, Nat.cast_zero, zero_mul, settle_zero]
    cases l.sign <;> simp [Quantity.toRat, Int64Amount.toRat]
  · rw [hparts] at h
    dsimp only at h
    rw [hl.suffix] at h
    cases hi : interpret l.suffix with
    | none =>
      rw [hi] at h
      cases h
    | some res =>
      obtain ⟨pair, format⟩ := res
      rw [hi] at h
      have hf := interpret_denotes l.denotes hi
      dsimp only at h
      split at h
      · rename_i res hfast
        subst h
        exact fastPath_toRat hl hf hfast
      · exact slowPath_toRat hl hf h

/-! ## Exactness -/

namespace Literal

/-- The number denoted, rounded away from zero and, for a binary suffix, capped. -/
def expected (l : Literal) : ℚ :=
  let x := roundAway unit l.number
  if l.factor.isBinary then max (-cap) (min cap x) else x

lemma expected_eq (l : Literal) :
    l.expected = l.sign.apply (settle l.factor.isBinary (l.coefficient * 10 ^ l.exponent)) := by
  obtain ⟨x, hx⟩ : ∃ x, (l.coefficient : ℚ) * 10 ^ l.exponent = x := ⟨_, rfl⟩
  have hnonneg : 0 ≤ x := by
    rw [← hx]
    exact mul_nonneg (Nat.cast_nonneg _) (zpow_nonneg (by norm_num) _)
  have hround : 0 ≤ roundUp unit x := hnonneg.trans (le_roundUp unit_pos x)
  have hcap : (0 : ℚ) ≤ cap := by norm_num [cap]
  have hmin : 0 ≤ min cap (roundUp unit x) := le_min hcap hround
  have hplus : max (-cap) (min cap (roundUp unit x)) = min cap (roundUp unit x) :=
    max_eq_right (by linarith)
  have hminus : max (-cap) (min cap (-roundUp unit x)) = -min cap (roundUp unit x) := by
    rw [min_eq_right (by linarith), max_neg_neg]
  rw [expected, number_eq, hx]
  unfold settle
  cases l.sign with
  | none =>
    rw [apply_none, apply_none, roundAway_of_nonneg hnonneg, hplus]
  | plus =>
    rw [apply_plus, apply_plus, roundAway_of_nonneg hnonneg, hplus]
  | minus =>
    rw [apply_minus, apply_minus, roundAway_neg, roundAway_of_nonneg hnonneg, hminus]
    split <;> rfl

/-- The literal is parsed to the number it denotes: it is zero, its exponent without the
suffix and the fraction fits, or the number of the wrapped exponent is rounded up to the
unit, or capped, as its own number is. -/
def Representable (l : Literal) : Prop :=
  l.coefficient = 0 ∨ (-2 ^ 31 < l.exponent ∧ l.exponent ≤ 2 ^ 31) ∨
    (l.coefficient * 10 ^ l.exponent ≤ unit ∧ l.coefficient * 10 ^ wrap l.exponent ≤ unit) ∨
    (l.factor.isBinary = true ∧ cap - unit < l.coefficient * 10 ^ l.exponent ∧
      cap - unit < l.coefficient * 10 ^ wrap l.exponent)

end Literal

lemma cap_le_roundUp {x : ℚ} : cap ≤ roundUp unit x ↔ cap - unit < x := by
  have hmul : cap = (((2 ^ 63 - 1) * 10 ^ 9 : Int) : ℚ) * unit := by
    norm_num [cap, unit]
  rw [hmul]
  exact mul_le_roundUp unit_pos

/-- Powers of ten with different exponents settle at one magnitude only at the ends. -/
lemma settle_eq_iff {n : Nat} (hn : 0 < n) {a b : Int} (hab : a < b) (binary : Bool) :
    settle binary ((n : ℚ) * 10 ^ b) = settle binary ((n : ℚ) * 10 ^ a) ↔
      (n : ℚ) * 10 ^ b ≤ unit ∨ (binary = true ∧ cap - unit < (n : ℚ) * 10 ^ a) := by
  have hnq : (0 : ℚ) < n := by exact_mod_cast hn
  have hpos : (0 : ℚ) < n * 10 ^ a := mul_pos hnq (zpow_pos (by norm_num) _)
  have hfar : 2 * ((n : ℚ) * 10 ^ a) ≤ n * 10 ^ b := by
    have hstep : (10 : ℚ) ^ (a + 1) ≤ 10 ^ b := zpow_le_zpow_right₀ (by norm_num) (by omega)
    have hten : (10 : ℚ) ^ (a + 1) = 10 ^ a * 10 := zpow_add_one₀ (by norm_num) a
    calc 2 * ((n : ℚ) * 10 ^ a) ≤ 10 * ((n : ℚ) * 10 ^ a) := by linarith
      _ = n * 10 ^ (a + 1) := by rw [hten]; ring
      _ ≤ n * 10 ^ b := mul_le_mul_of_nonneg_left hstep hnq.le
  unfold settle
  cases binary with
  | false =>
    simp only [Bool.false_eq_true, if_false, false_and, or_false]
    exact roundUp_eq_iff unit_pos hpos hfar
  | true =>
    simp only [if_true, true_and, ← cap_le_roundUp]
    exact min_roundUp_eq_iff unit_pos hpos hfar

/-- A literal is parsed to the number it denotes exactly if it is representable. -/
lemma Literal.toRat_eq_expected_iff (l : Literal) (h : parseQuantity l.text = .ok q) :
    q.toRat = l.expected ↔ l.Representable := by
  rw [l.toRat_eq h, l.expected_eq, apply_inj]
  by_cases hzero : l.coefficient = 0
  · exact iff_of_true (by rw [hzero, Nat.cast_zero, zero_mul, zero_mul]) (.inl hzero)
  by_cases hwrap : wrap l.exponent = l.exponent
  · exact iff_of_true (by rw [hwrap]) (.inr (.inl (wrap_eq_self.1 hwrap)))
  have hrange : ¬ (-2 ^ 31 < l.exponent ∧ l.exponent ≤ 2 ^ 31) := fun hr => hwrap (wrap_eq_self.2 hr)
  have hpos : 0 < l.coefficient := Nat.pos_of_ne_zero hzero
  -- the greater of the two numbers is below the unit, or the smaller one is capped
  have hmono : ∀ {a b : Int}, a < b →
      (l.coefficient : ℚ) * 10 ^ a ≤ l.coefficient * 10 ^ b := by
    intro a b hab
    have hpow : (10 : ℚ) ^ a ≤ 10 ^ b := zpow_le_zpow_right₀ (by norm_num) hab.le
    exact mul_le_mul_of_nonneg_left hpow (Nat.cast_nonneg _)
  rw [Representable, or_iff_right hzero, or_iff_right hrange]
  rcases lt_or_gt_of_ne hwrap with hlt | hgt
  · have hle := hmono hlt
    rw [eq_comm, settle_eq_iff hpos hlt]
    refine or_congr ?_ (and_congr_right' ?_)
    · exact (and_iff_left_of_imp hle.trans).symm
    · exact (and_iff_right_of_imp fun hcap => hcap.trans_le hle).symm
  · have hle := hmono hgt
    rw [settle_eq_iff hpos hgt]
    refine or_congr ?_ (and_congr_right' ?_)
    · exact (and_iff_right_of_imp hle.trans).symm
    · exact (and_iff_left_of_imp fun hcap => hcap.trans_le hle).symm

lemma Literal.expected_unique {l' : Literal} (h : l.text = l'.text) :
    l.expected = l'.expected := by
  obtain ⟨-, -, hfactor, -⟩ := parts_unique h
  rw [expected, expected, number_unique h, hfactor]

/-- A string that is parsed denotes a number, and is parsed to it, exactly if it is a literal
that is representable. -/
theorem parsed_exact_iff {str : List Char} {q : Quantity} (h : parseQuantity str = .ok q) :
    (∃ l : Literal, l.text = str ∧ q.toRat = l.expected) ↔
      ∃ l : Literal, l.text = str ∧ l.Representable := by
  constructor
  · rintro ⟨l, rfl, hexact⟩
    exact ⟨l, rfl, (l.toRat_eq_expected_iff h).1 hexact⟩
  · rintro ⟨l, rfl, hrep⟩
    exact ⟨l, rfl, (l.toRat_eq_expected_iff h).2 hrep⟩

/-- A fraction with a binary suffix. -/
theorem parsed_exact_gibi :
    ∃ (q : Quantity) (l : Literal), parseQuantity "1.5Gi".toList = .ok q ∧
      l.text = "1.5Gi".toList ∧ l.number = 1610612736 ∧ q.toRat = l.expected := by
  let l₀ : Literal :=
    ⟨.none, ['1'], true, ['5'], "Gi".toList, .two 30, by decide, by decide, by decide, by decide,
      .unit (by decide)⟩
  have hrep : ∃ l : Literal, l.text = "1.5Gi".toList ∧ l.Representable :=
    ⟨l₀, by decide, .inr (.inl (by decide))⟩
  have hq : parseQuantity "1.5Gi".toList =
      .ok ⟨⟨0, 0⟩, some ⟨1610612736 * 10 ^ 9, 9⟩, [], .binarySI⟩ := by decide +kernel
  obtain ⟨l, htext, hexact⟩ := (parsed_exact_iff hq).2 hrep
  have hdigits : ofDigits ['1', '5'] = 15 := by decide
  have hnumber : l₀.number = 1610612736 := by
    norm_num [l₀, Literal.number, Factor.toRat, hdigits]
  exact ⟨_, l, hq, htext, (Literal.number_unique (htext.trans (by decide))).trans hnumber, hexact⟩

/-- The literal `1e4294967296`. -/
def hugeExponent : Literal where
  sign := .none
  whole := ['1']
  point := false
  frac := []
  suffix := 'e' :: (Sign.none.text ++ "4294967296".toList)
  factor := .ten (Sign.none.apply (ofDigits "4294967296".toList : Int))
  whole_digits := by decide
  frac_digits := by decide
  frac_point := by decide
  some_digit := by decide
  denotes := .decimalExponent (.inl rfl) (by decide) (by decide)

lemma hugeExponent_not_representable : ¬ hugeExponent.Representable := by
  have hcoeff : hugeExponent.coefficient = 1 := by decide
  have hexp : 2 ^ 31 < hugeExponent.exponent := by decide
  have hone : (1 : ℚ) ≤ 10 ^ hugeExponent.exponent := one_le_zpow₀ (by norm_num) (by omega)
  have hunit : unit < 1 := by norm_num [unit]
  rintro (hzero | ⟨-, hle⟩ | ⟨hle, -⟩ | ⟨hbin, -⟩)
  · omega
  · omega
  · rw [hcoeff, Nat.cast_one, one_mul] at hle
    linarith
  · cases hbin

/-- An exponent of `2 ^ 32` is taken for zero, and a sign without a number for the number
zero. -/
theorem parsed_inexact :
    (∃ (q : Quantity) (l : Literal), parseQuantity "1e4294967296".toList = .ok q ∧
      l.text = "1e4294967296".toList ∧ l.number = 10 ^ (4294967296 : Int) ∧ q.toRat = 1 ∧
      ¬ ∃ l' : Literal, l'.text = "1e4294967296".toList ∧ q.toRat = l'.expected) ∧
    ∃ q : Quantity, parseQuantity "-".toList = .ok q ∧ ¬ ∃ l : Literal, l.text = "-".toList := by
  constructor
  · have htext : hugeExponent.text = "1e4294967296".toList := by decide
    have hcoeff : hugeExponent.coefficient = 1 := by decide
    have hexp : hugeExponent.exponent = 4294967296 := by decide
    have hparse : parseQuantity "1e4294967296".toList =
        .ok ⟨⟨1, 0⟩, none, "1e4294967296".toList, .decimalExponent⟩ := by decide +kernel
    refine ⟨_, hugeExponent, hparse, htext, ?_, ?_, ?_⟩
    · rw [Literal.number_eq, hcoeff, hexp, Nat.cast_one, one_mul]
      rfl
    · simp [Quantity.toRat, Int64Amount.toRat]
    · rintro ⟨l, hl, hexact⟩
      rw [Literal.expected_unique (hl.trans htext.symm)] at hexact
      rw [← htext] at hparse
      exact hugeExponent_not_representable ((hugeExponent.toRat_eq_expected_iff hparse).1 hexact)
  · have hparse : parseQuantity "-".toList = .ok ⟨⟨0, 0⟩, none, [], .decimalSI⟩ := by decide +kernel
    refine ⟨_, hparse, ?_⟩
    rintro ⟨l, hl⟩
    -- nothing follows the sign
    have hsplit := l.splitSign_literal
    rw [hl] at hsplit
    obtain ⟨-, hrest⟩ := Prod.mk.inj hsplit
    obtain ⟨hwhole, htail⟩ := append_eq_nil_iff.1 hrest.symm
    obtain ⟨hfrac, -⟩ := l.tail_eq_nil htail
    exact l.some_digit (by rw [hwhole, hfrac]; rfl)

end Kubernetes.Resource
