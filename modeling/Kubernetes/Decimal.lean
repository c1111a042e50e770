import Kubernetes.Core
import Mathlib.Data.Rat.Floor

/-! # Digit strings, machine integers and rounding

What a parser of decimal numbers needs:

1. digit strings, their numbers, and how a scanner splits them off;
2. conversions to signed machine integers of a given width, up to which the value of an
   expression is known only modulo a power of two;
3. rounding up to a multiple of a unit, and when two numbers that are far apart have the
   same multiple, also with an upper limit.
-/

namespace Kubernetes.Decimal

open Nat

/-! ## Digit strings -/

section

variable {α : Type*} {p : α → Bool} {s t : List α}

lemma takeWhile_append_stop (hin : ∀ a ∈ s, p a = true) (hstop : ∀ a ∈ t.head?, p a = false) :
    (s ++ t).takeWhile p = s := by
  rw [List.takeWhile_append_of_pos hin]
  cases t with
  | nil => simp
  | cons a t =>
    have ha : p a = false := hstop a rfl
    simp [ha]

lemma dropWhile_append_stop (hin : ∀ a ∈ s, p a = true) (hstop : ∀ a ∈ t.head?, p a = false) :
    (s ++ t).dropWhile p = t := by
  rw [List.dropWhile_append_of_pos hin]
  cases t with
  | nil => rfl
  | cons a t =>
    have ha : p a = false := hstop a rfl
    simp [ha]

end

/-- A string of decimal digits, which may be empty. -/
def AllDigits (s : List Char) : Prop := ∀ c ∈ s, c.isDigit = true

instance (s : List Char) : Decidable (AllDigits s) := List.decidableBAll _ s

lemma allDigits_nil : AllDigits [] := by
  intro c hc
  cases hc

variable {s : List Char}

lemma allDigits_append {t : List Char} : AllDigits (s ++ t) ↔ AllDigits s ∧ AllDigits t :=
  List.forall_mem_append

/-- The number of a digit string. -/
def ofDigits (s : List Char) : Nat := ofDigitChars 10 s 0

lemma ofDigits_append (s t : List Char) :
    ofDigits (s ++ t) = 10 ^ t.length * ofDigits s + ofDigits t := by
  rw [ofDigits, ofDigitChars_append, ofDigitChars_eq_ofDigitChars_zero]
  rfl

lemma ofDigits_zeros_append (h : ∀ c ∈ s, c = '0') (t : List Char) :
    ofDigits (s ++ t) = ofDigits t := by
  induction s with
  | nil => rfl
  | cons c s ih =>
    have hc : c = '0' := h c List.mem_cons_self
    have htail := ih (List.forall_mem_cons.1 h).2
    rw [← htail, hc]
    exact ofDigitChars_cons

inductive Sign where
  | none
  | plus
  | minus
deriving DecidableEq

namespace Sign

def text : Sign → List Char
  | .none => []
  | .plus => ['+']
  | .minus => ['-']

/-- The number with the sign in front of it. -/
def apply {α : Type*} [Neg α] : Sign → α → α
  | .minus, x => -x
  | _, x => x

variable {α : Type*}

@[simp]
lemma apply_none [Neg α] (x : α) : Sign.none.apply x = x := rfl

@[simp]
lemma apply_plus [Neg α] (x : α) : Sign.plus.apply x = x := rfl

@[simp]
lemma apply_minus [Neg α] (x : α) : Sign.minus.apply x = -x := rfl

lemma apply_inj [InvolutiveNeg α] (sign : Sign) {x y : α} :
    sign.apply x = sign.apply y ↔ x = y := by
  cases sign
  · exact Iff.rfl
  · exact Iff.rfl
  · exact neg_inj

end Sign

/-- A string without a sign in front. -/
def Unsigned (s : List Char) : Prop := ∀ c ∈ s.head?, c ≠ '+' ∧ c ≠ '-'

lemma unsigned_of_allDigits (h : AllDigits s) : Unsigned s := by
  intro c hc
  have hdigit : c.isDigit = true := h c (List.mem_of_mem_head? hc)
  constructor
  · rintro rfl
    cases hdigit
  · rintro rfl
    cases hdigit

/-- A sign, if there is one, and the rest. -/
def splitSign : List Char → Sign × List Char
  | '+' :: s => (.plus, s)
  | '-' :: s => (.minus, s)
  | s => (.none, s)

lemma splitSign_text (sign : Sign) (h : Unsigned s) :
    splitSign (sign.text ++ s) = (sign, s) := by
  cases sign with
  | plus => rfl
  | minus => rfl
  | none =>
    show splitSign s = _
    unfold splitSign
    split
    · exact absurd rfl (h '+' rfl).1
    · exact absurd rfl (h '-' rfl).2
    · rfl

/-- The integer of an optional sign and at least one digit. -/
def parseInt (s : List Char) : Option Int :=
  let (sign, digits) := splitSign s
  if digits ≠ [] ∧ AllDigits digits then some (sign.apply (ofDigits digits : Int)) else none

lemma parseInt_text (sign : Sign) (hne : s ≠ []) (h : AllDigits s) :
    parseInt (sign.text ++ s) = some (sign.apply (ofDigits s : Int)) := by
  unfold parseInt
  rw [splitSign_text sign (unsigned_of_allDigits h)]
  exact if_pos ⟨hne, h⟩

variable (n : Nat)

/-- The digits of a number. -/
def itoa : List Char := toDigits 10 n

lemma itoa_ne_nil : itoa n ≠ [] := toDigits_ne_nil

lemma allDigits_itoa : AllDigits (itoa n) := fun _ hc =>
  isDigit_of_mem_toDigits (by decide) (by decide) hc

@[simp]
lemma ofDigits_itoa : ofDigits (itoa n) = n :=
  ofDigitChars_toDigits (by decide) (by decide)

/-- `strconv.Atoi`, and `strconv.ParseInt` with base 10 and 64 bits. -/
def atoi (s : List Char) : Option Int :=
  (parseInt s).filter fun n => -2 ^ 63 ≤ n ∧ n < 2 ^ 63

lemma atoi_itoa {n : Nat} (h : n < 2 ^ 63) : atoi (itoa n) = some (n : Int) := by
  have hparse := parseInt_text .none (itoa_ne_nil n) (allDigits_itoa n)
  rw [ofDigits_itoa] at hparse
  unfold atoi
  rw [show itoa n = Sign.none.text ++ itoa n from rfl, hparse, Sign.apply_none, Option.filter_some,
    if_pos (by rw [decide_eq_true_eq]; omega)]

/-! ## Machine integers -/

variable (x : Int)

/-- The conversion to `int32`: the integer of that range with the same residue. -/
def int32 : Int := (x + 2 ^ 31) % 2 ^ 32 - 2 ^ 31

/-- The conversion to `int64`. -/
def int64 : Int := (x + 2 ^ 63) % 2 ^ 64 - 2 ^ 63

lemma int32_bounds : -2 ^ 31 ≤ int32 x ∧ int32 x < 2 ^ 31 := by
  unfold int32
  omega

lemma int32_of_bounds {x : Int} (h : -2 ^ 31 ≤ x ∧ x < 2 ^ 31) : int32 x = x := by
  unfold int32
  omega

/-- Sums of converted numbers are known up to the residue, and so is their conversion. -/
lemma int32_add (x y : Int) : int32 (int32 x + int32 y) = int32 (x + y) := by
  unfold int32
  omega

lemma int32_sub (x y : Int) : int32 (int32 x - int32 y) = int32 (x - y) := by
  unfold int32
  omega

lemma int32_neg : int32 (-int32 x) = int32 (-x) := by
  unfold int32
  omega

lemma int64_of_bounds {x : Int} (hle : -2 ^ 63 ≤ x) (hlt : x < 2 ^ 63) : int64 x = x := by
  unfold int64
  omega

/-- The range of `int64`. -/
def IsInt64 : Prop := -2 ^ 63 ≤ x ∧ x < 2 ^ 63

instance (x : Int) : Decidable (IsInt64 x) := inferInstanceAs (Decidable (_ ∧ _))

lemma IsInt64.int64_eq {x : Int} (h : IsInt64 x) : int64 x = x := int64_of_bounds h.1 h.2

lemma IsInt64.of_mul {x b : Int} (hb : 0 < b) (h : IsInt64 (x * b)) : IsInt64 x := by
  unfold IsInt64 at *
  constructor <;> nlinarith

/-- A product is in the range if dividing what it was converted to gives the factor back: the
remainder is far less than a wrap. -/
lemma isInt64_of_tdiv {a b : Int} (hb : 0 < b) (hb' : b < 2 ^ 63)
    (h : (int64 (a * b)).tdiv b = a) : IsInt64 (a * b) := by
  have hdiv := Int.tdiv_mul_add_tmod (int64 (a * b)) b
  have hlt := Int.tmod_lt_of_pos (int64 (a * b)) hb
  have hgt := Int.lt_tmod_of_pos (int64 (a * b)) hb
  rw [h] at hdiv
  unfold IsInt64
  unfold int64 at hdiv hlt hgt
  omega

/-- A comparison with a multiple of `d`, by the truncated quotient and, if that is equal, by
the remainder. -/
lemma compare_mul_eq (a b : Int) {d : Int} (hd : 0 < d) :
    compare (a * d) b = if b.tdiv d = a then compare 0 (b.tmod d) else compare a (b.tdiv d) := by
  have hdiv := Int.tdiv_mul_add_tmod b d
  have hlt := Int.tmod_lt_of_pos b hd
  have hgt := Int.lt_tmod_of_pos b hd
  split_ifs with heq
  · rw [heq] at hdiv
    rw [← cmp_eq_compare, ← cmp_eq_compare, ← cmp_add_left (a * d) 0, hdiv, add_zero]
  rcases lt_or_gt_of_ne heq with h | h
  · have hle : b.tdiv d * d + d ≤ a * d := by nlinarith
    rw [compare_gt_iff_gt.2 h, compare_gt_iff_gt]
    omega
  · have hle : a * d + d ≤ b.tdiv d * d := by nlinarith
    rw [compare_lt_iff_lt.2 h, compare_lt_iff_lt]
    omega

/-! ## Rounding -/

/-- The ceiling of a quotient by truncated division, with its remainder. -/
lemma ceil_intCast_div (n : Int) {d : Nat} (hd : 0 < d) :
    ⌈(n / d : ℚ)⌉ = if n % d ≠ 0 then n / d + 1 else n / d := by
  rw [Rat.ceil_intCast_div_natCast, Int.neg_ediv]
  by_cases hdvd : (d : Int) ∣ n
  · have hzero : ¬ n % d ≠ 0 := not_not.2 (Int.emod_eq_zero_of_dvd hdvd)
    rw [if_pos hdvd, if_neg hzero]
    omega
  · have hrem : n % d ≠ 0 := fun h => hdvd (Int.dvd_of_emod_eq_zero h)
    have hsign : (d : Int).sign = 1 := Int.sign_eq_one_of_pos (by omega)
    rw [if_neg hdvd, if_pos hrem, hsign]
    omega

section

variable {α : Type*} [Field α] [LinearOrder α] [FloorRing α]

/-- The least multiple of the unit `u` that is not below `x`. -/
def roundUp (u x : α) : α := ⌈x / u⌉ * u

/-- Rounding to a multiple of the unit `u`, away from zero. -/
def roundAway (u x : α) : α := if 0 ≤ x then roundUp u x else -roundUp u (-x)

variable {u x y : α}

lemma roundAway_of_nonneg (hx : 0 ≤ x) : roundAway u x = roundUp u x := if_pos hx

variable [IsStrictOrderedRing α]

lemma roundUp_zero : roundUp u 0 = 0 := by simp [roundUp]

variable (hu : 0 < u)

include hu

lemma roundUp_mul (n : Int) : roundUp u (n * u) = n * u := by
  rw [roundUp, mul_div_cancel_right₀ _ hu.ne', Int.ceil_intCast]

lemma le_roundUp (x : α) : x ≤ roundUp u x := by
  have hceil : x / u ≤ ⌈x / u⌉ := Int.le_ceil _
  exact (div_le_iff₀ hu).1 hceil

lemma roundUp_lt (x : α) : roundUp u x < x + u := by
  have hceil : (⌈x / u⌉ : α) < x / u + 1 := Int.ceil_lt_add_one _
  calc roundUp u x < (x / u + 1) * u := mul_lt_mul_of_pos_right hceil hu
    _ = x + u := by rw [add_mul, one_mul, div_mul_cancel₀ _ hu.ne']

lemma roundUp_mono (h : x ≤ y) : roundUp u x ≤ roundUp u y := by
  have hceil : ⌈x / u⌉ ≤ ⌈y / u⌉ := Int.ceil_mono (div_le_div_of_nonneg_right h hu.le)
  exact mul_le_mul_of_nonneg_right (Int.cast_le.2 hceil) hu.le

/-- A multiple of the unit is a bound of a number exactly if it is one of its rounding. -/
lemma roundUp_le_mul {n : Int} : roundUp u x ≤ n * u ↔ x ≤ n * u := by
  rw [roundUp, mul_le_mul_iff_of_pos_right hu, Int.cast_le, Int.ceil_le, div_le_iff₀ hu]

/-- A multiple of the unit is reached by the rounding of what is less than a unit below. -/
lemma mul_le_roundUp {n : Int} : n * u ≤ roundUp u x ↔ n * u - u < x := by
  have hsub : (n : α) * u - u = ((n - 1 : Int) : α) * u := by
    push_cast
    ring
  rw [hsub, ← not_le, ← roundUp_le_mul hu, not_le, roundUp, mul_le_mul_iff_of_pos_right hu,
    mul_lt_mul_iff_of_pos_right hu, Int.cast_le, Int.cast_lt, Int.sub_one_lt_iff]

lemma roundUp_eq_unit (hx : 0 < x) (hle : x ≤ u) : roundUp u x = u := by
  have hone : ⌈x / u⌉ = 1 := by
    rw [Int.ceil_eq_iff]
    constructor
    · simpa using div_pos hx hu
    · simpa using (div_le_one₀ hu).2 hle
  rw [roundUp, hone, Int.cast_one, one_mul]

omit hu in
lemma roundAway_neg (x : α) : roundAway u (-x) = -roundAway u x := by
  rcases lt_trichotomy x 0 with hx | rfl | hx
  · have hpos : 0 ≤ -x := by linarith
    rw [roundAway, if_pos hpos, roundAway, if_neg (not_le.2 hx), neg_neg]
  · simp [roundAway, roundUp_zero]
  · have hneg : ¬ 0 ≤ -x := by linarith
    rw [roundAway, if_neg hneg, roundAway, if_pos hx.le, neg_neg]

/-- Of two positive numbers, one at least twice the other, the roundings agree only at the
unit. -/
lemma roundUp_eq_iff (hy : 0 < y) (hxy : 2 * y ≤ x) :
    roundUp u x = roundUp u y ↔ x ≤ u := by
  constructor
  · intro h
    by_contra hlt
    rw [not_le] at hlt
    -- `y` is less than one unit below the common rounding, which is at least two units
    have htwo : 2 * u ≤ roundUp u x := by
      have hn : ¬ roundUp u x ≤ (1 : Int) * u := by
        rw [roundUp_le_mul hu]
        simpa using hlt
      rw [roundUp] at hn ⊢
      rw [mul_le_mul_iff_of_pos_right hu, Int.cast_le, not_le] at hn
      have hcast : (2 : α) ≤ ⌈x / u⌉ := by exact_mod_cast hn
      exact mul_le_mul_of_nonneg_right hcast hu.le
    have hbelow := roundUp_lt hu y
    have habove := le_roundUp hu x
    rw [← h] at hbelow
    linarith
  · intro h
    have hx : 0 < x := by linarith
    have hyu : y ≤ u := by linarith
    rw [roundUp_eq_unit hu hx h, roundUp_eq_unit hu hy hyu]

/-- The same with a limit: the roundings also agree if both reach it. -/
lemma min_roundUp_eq_iff (hy : 0 < y) (hxy : 2 * y ≤ x) {m : α} :
    min m (roundUp u x) = min m (roundUp u y) ↔ x ≤ u ∨ m ≤ roundUp u y := by
  have hle : roundUp u y ≤ roundUp u x := roundUp_mono hu (by linarith)
  constructor
  · intro h
    by_cases hlim : m ≤ roundUp u y
    · exact .inr hlim
    rw [not_le] at hlim
    rw [min_eq_right hlim.le] at h
    -- the limit is not reached by `y`, so neither is it by `x`
    rcases min_choice m (roundUp u x) with hmin | hmin
    · rw [hmin] at h
      exact absurd h.symm hlim.ne
    · rw [hmin] at h
      exact .inl ((roundUp_eq_iff hu hy hxy).1 h)
  · rintro (h | h)
    · rw [(roundUp_eq_iff hu hy hxy).2 h]
    · rw [min_eq_left h, min_eq_left (h.trans hle)]

end

end Kubernetes.Decimal
