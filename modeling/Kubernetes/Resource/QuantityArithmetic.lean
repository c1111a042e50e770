import Kubernetes.Resource.QuantityExact

/-! # Adding and comparing quantities

A quantity is an `int64` at a decimal scale as long as that is enough, and an `inf.Dec`
otherwise. Sums, differences and comparisons of two `int64` amounts bring them to one scale
by checked multiplication or by truncated division, and go over to `inf.Dec` when that fails.

Results:

1. `Int64Amount.add_spec`: the sum in `int64` is exact, or refused without a change;
2. `add_cmp_exact`: sums and comparisons are exact in either representation;
3. `sub_neg_exact_iff`: differences and negations are, except for the least `int64`, which is
   its own negation;
4. `cmp_defined_iff`: the comparison of parsed quantities divides by zero exactly if the
   difference of the scales is not an `int32`, or panics in `inf.Dec` if it is `2 ^ 31`.

The first three take `inf.Dec` as exact. It is, as long as the scales are less than `2 ^ 31` apart
(`Dec.upscale_eq`); for the last it is modelled with its `int32` scales.
-/

namespace Kubernetes.Resource

open Decimal Option

/-! ## Machine arithmetic -/

/-- `int64Add`; nothing if the sum overflows. -/
def int64Add (a b : Int) : Option Int :=
  let c := int64 (a + b)
  if a > 0 ∧ b > 0 then if c < 0 then none else some c
  else if a < 0 ∧ b < 0 then
    if c > 0 then none else if a = -2 ^ 63 ∧ b = -2 ^ 63 then none else some c
  else some c

/-- `int64MultiplyScale`: the product, and whether it did not overflow. -/
def int64MultiplyScale (a b : Int) : Int × Bool :=
  if a = 0 ∨ a = 1 then (int64 (a * b), true)
  else if a = -2 ^ 63 ∧ b ≠ 1 then (0, false)
  else (int64 (a * b), (int64 (a * b)).tdiv b = a)

def int64MultiplyScale10 (a : Int) : Int × Bool := int64MultiplyScale a 10

def int64MultiplyScale100 (a : Int) : Int × Bool := int64MultiplyScale a 100

def int64MultiplyScale1000 (a : Int) : Int × Bool := int64MultiplyScale a 1000

/-- One round of the loop of `positiveScaleInt64`. -/
def scaleRound (value : Option Int) : Option Int :=
  value.bind fun value =>
    let (value, ok) := int64MultiplyScale value 10
    if ok then some value else none

def positiveScaleInt64 (base scale : Int) : Int × Bool :=
  if scale = 0 then (base, true)
  else if scale = 1 then int64MultiplyScale10 base
  else if scale = 2 then int64MultiplyScale100 base
  else if scale = 3 then int64MultiplyScale1000 base
  else if scale = 6 then int64MultiplyScale base 1000000
  else if scale = 9 then int64MultiplyScale base 1000000000
  else
    match scaleRound^[scale.toNat] (some base) with
    | some value => (value, true)
    | none => (0, false)

/-- `pow10Int64`: a table of the powers that are an `int64`. -/
def pow10Int64 (b : Int) : Int := if 0 ≤ b ∧ b ≤ 18 then 10 ^ b.toNat else 0

/-- `divideByScaleInt64`: the quotient, the remainder, and whether the division was possible.
Nothing if it divides by zero. -/
def divideByScaleInt64 (base scale : Int) : Option (Int × Int × Bool) :=
  if scale = 0 then some (base, 0, true)
  else if scale ≥ 18 then some (0, base, false)
  else
    let divisor := pow10Int64 scale
    if divisor = 0 then none else some (base.tdiv divisor, base.tmod divisor, true)

lemma int64Add_eq {a b : Int} (ha : IsInt64 a) (hb : IsInt64 b) :
    int64Add a b = if IsInt64 (a + b) then some (a + b) else none := by
  unfold int64Add
  dsimp only
  by_cases hfits : IsInt64 (a + b)
  · rw [hfits.int64_eq, if_pos hfits]
    unfold IsInt64 at hfits
    split_ifs <;> first | rfl | omega
  · rw [if_neg hfits]
    unfold IsInt64 at *
    unfold int64
    split_ifs <;> first | rfl | omega

variable {base : Int}

lemma int64MultiplyScale_of_isInt64 {b : Int} (hb : 1 < b) (h : IsInt64 (base * b)) :
    int64MultiplyScale base b = (base * b, true) := by
  unfold int64MultiplyScale
  rw [h.int64_eq, Int.mul_tdiv_cancel _ (by omega)]
  split_ifs with htriv hleast
  · rfl
  · obtain ⟨rfl, -⟩ := hleast
    unfold IsInt64 at h
    omega
  · simp

lemma int64MultiplyScale_of_not {b : Int} (hb : 1 < b) (hb' : b < 2 ^ 63)
    (h : ¬ IsInt64 (base * b)) : (int64MultiplyScale base b).2 = false := by
  unfold int64MultiplyScale
  split_ifs with htriv hleast
  · refine absurd ?_ h
    unfold IsInt64
    rcases htriv with rfl | rfl <;> omega
  · rfl
  · exact decide_eq_false fun hdiv => h (isInt64_of_tdiv (by omega) hb' hdiv)

lemma scaleRounds_eq (hbase : IsInt64 base) (n : Nat) :
    scaleRound^[n] (some base) = if IsInt64 (base * 10 ^ n) then some (base * 10 ^ n) else none := by
  induction n with
  | zero => simp [hbase]
  | succ n ih =>
    rw [Function.iterate_succ_apply', ih, pow_succ, ← mul_assoc]
    by_cases hnext : IsInt64 (base * 10 ^ n * 10)
    · rw [if_pos hnext, if_pos (hnext.of_mul (by norm_num))]
      simp [scaleRound, int64MultiplyScale_of_isInt64 (by norm_num) hnext]
    rw [if_neg hnext]
    split_ifs
    · simp [scaleRound, int64MultiplyScale_of_not (by norm_num) (by norm_num) hnext]
    · rfl

/-- The scales that have a case of their own are not special. -/
lemma positiveScaleInt64_spec (hbase : IsInt64 base) (n : Nat) :
    (IsInt64 (base * 10 ^ n) → positiveScaleInt64 base n = (base * 10 ^ n, true)) ∧
      (¬ IsInt64 (base * 10 ^ n) → (positiveScaleInt64 base n).2 = false) := by
  have hcase : ∀ k b : Nat, n = k → 10 ^ k = b → 1 < b → b < 2 ^ 63 →
      (IsInt64 (base * 10 ^ n) → int64MultiplyScale base b = (base * 10 ^ n, true)) ∧
      (¬ IsInt64 (base * 10 ^ n) → (int64MultiplyScale base b).2 = false) := by
    rintro k _ rfl rfl hb hb'
    have hone : (1 : Int) < (10 ^ n : Nat) := by exact_mod_cast hb
    push_cast at *
    exact ⟨int64MultiplyScale_of_isInt64 hone,
      int64MultiplyScale_of_not hone (by exact_mod_cast hb')⟩
  unfold positiveScaleInt64
  split_ifs with h0 h1 h2 h3 h6 h9
  · obtain rfl : n = 0 := by omega
    simp [hbase]
  · exact hcase 1 10 (by omega) rfl (by norm_num) (by norm_num)
  · exact hcase 2 100 (by omega) rfl (by norm_num) (by norm_num)
  · exact hcase 3 1000 (by omega) rfl (by norm_num) (by norm_num)
  · exact hcase 6 1000000 (by omega) rfl (by norm_num) (by norm_num)
  · exact hcase 9 1000000000 (by omega) rfl (by norm_num) (by norm_num)
  · rw [Int.toNat_natCast, scaleRounds_eq hbase]
    constructor
    · intro h
      rw [if_pos h]
    · intro h
      rw [if_neg h]

/-! ## `inf.Dec` -/

namespace Dec

variable (x y : Dec)

/-- `Add`: the sum of the unscaled numbers at the greater of the scales. -/
def add : Dec :=
  ⟨x.unscaled * 10 ^ (y.scale - x.scale).toNat + y.unscaled * 10 ^ (x.scale - y.scale).toNat,
    max x.scale y.scale⟩

def sub : Dec := x.add y.neg

lemma toRat_add : (x.add y).toRat = x.toRat + y.toRat := by
  have hpow : (10 : ℚ) ^ max x.scale y.scale ≠ 0 := zpow_ne_zero _ (by norm_num)
  rw [toRat, add, Int.cast_add, cast_upscale x y, cast_upscale y x, max_comm y.scale, ← add_mul,
    zpow_neg, mul_inv_cancel_right₀ hpow]

lemma toRat_sub : (x.sub y).toRat = x.toRat - y.toRat := by
  rw [sub, toRat_add, toRat_neg, sub_eq_add_neg]

/-- `exp10`; nothing for a negative number, which is no index of the table. -/
def exp10 (x : Int) : Option Int := if x < 0 then none else some (10 ^ x.toNat)

/-- `rescale`, with the shift in `int32`. -/
def rescale (x : Dec) (newScale : Int) : Option Dec :=
  let shift := int32 (newScale - x.scale)
  if shift < 0 then (exp10 (int32 (-shift))).map fun e => ⟨x.unscaled.tdiv e, newScale⟩
  else if shift > 0 then (exp10 shift).map fun e => ⟨x.unscaled * e, newScale⟩
  else some x

def upscale : Option (Dec × Dec) :=
  if x.scale = y.scale then some (x, y)
  else if x.scale > y.scale then (y.rescale x.scale).map fun y => (x, y)
  else (x.rescale y.scale).map fun x => (x, y)

/-- `Cmp` with `int32` scales; nothing if it panics. -/
def tryCmp : Option Ordering :=
  (x.upscale y).map fun (x, y) => compare x.unscaled y.unscaled

/-- `Add` with `int32` scales; nothing if it panics. -/
def tryAdd : Option Dec :=
  (x.upscale y).map fun (x, y) => ⟨x.unscaled + y.unscaled, x.scale⟩

variable {x y}

lemma rescale_eq {newScale : Int} (h : x.scale < newScale) (hgap : newScale - x.scale < 2 ^ 31) :
    x.rescale newScale = some ⟨x.unscaled * 10 ^ (newScale - x.scale).toNat, newScale⟩ := by
  unfold rescale exp10
  rw [int32_of_bounds ⟨by omega, hgap⟩]
  simp [show ¬ newScale - x.scale < 0 by omega, h]

/-- Scales that are not too far apart are no restriction. -/
lemma upscale_eq (h : |x.scale - y.scale| < 2 ^ 31) :
    x.tryCmp y = some (x.cmp y) ∧ x.tryAdd y = some (x.add y) := by
  rw [abs_lt] at h
  unfold tryCmp tryAdd cmp add upscale
  rcases lt_trichotomy x.scale y.scale with hlt | heq | hgt
  · rw [if_neg hlt.ne, if_neg hlt.not_gt, rescale_eq hlt (by omega)]
    simp [show (x.scale - y.scale).toNat = 0 by omega, hlt.le]
  · simp [heq]
  · rw [if_neg hgt.ne', if_pos hgt, rescale_eq hgt (by omega)]
    simp [show (y.scale - x.scale).toNat = 0 by omega, hgt.le]

/-- The least `int32` is its own negation, and no index. -/
lemma isSome_rescale (newScale : Int) :
    (x.rescale newScale).isSome ↔ int32 (newScale - x.scale) ≠ -2 ^ 31 := by
  unfold rescale exp10
  dsimp only
  have hbounds := int32_bounds (newScale - x.scale)
  generalize int32 (newScale - x.scale) = shift at *
  unfold int32
  split_ifs <;>
    simp only [map_none, map_some, isSome_none, isSome_some, true_iff,
      Bool.false_eq_true, false_iff] <;> omega

lemma isSome_upscale : (x.upscale y).isSome ↔ int32 (x.scale - y.scale) ≠ -2 ^ 31 := by
  unfold upscale
  split_ifs with heq
  · simp [heq, int32]
  · rw [isSome_map, isSome_rescale]
  · rw [isSome_map, isSome_rescale]
    unfold int32
    omega

end Dec

/-! ## Amounts -/

namespace Int64Amount

def asDec (a : Int64Amount) : Dec := ⟨a.value, int32 (-a.scale)⟩

variable (a b : Int64Amount)

/-- `Cmp`; nothing if it divides by zero. The comparison of `inf.Dec` is a parameter. -/
def cmpWith (cmp : Dec → Dec → Option Ordering) : Option Ordering :=
  if a.scale = b.scale then some (compare a.value b.value)
  else if a.scale > b.scale then do
    let (result, remainder, exact) ← divideByScaleInt64 b.value (int32 (a.scale - b.scale))
    if !exact then cmp a.asDec b.asDec
    else if result = a.value then some (compare 0 remainder)
    else some (compare a.value result)
  else do
    let (result, remainder, exact) ← divideByScaleInt64 a.value (int32 (b.scale - a.scale))
    if !exact then cmp a.asDec b.asDec
    else if result = b.value then some (compare remainder 0)
    else some (compare result b.value)

def cmp : Option Ordering := a.cmpWith b fun x y => some (x.cmp y)

/-- `Add`: the receiver after the call, and the result. -/
def add : Int64Amount × Bool :=
  if b.value = 0 then (a, true)
  else if a.value = 0 then (b, true)
  else if a.scale = b.scale then
    match int64Add a.value b.value with
    | none => (a, false)
    | some c => ({ a with value := c }, true)
  else if a.scale > b.scale then
    let (c, ok) := positiveScaleInt64 a.value (int32 (a.scale - b.scale))
    if !ok then (a, false)
    else
      match int64Add c b.value with
      | none => (a, false)
      | some c => (⟨c, b.scale⟩, true)
  else
    let (c, ok) := positiveScaleInt64 b.value (int32 (b.scale - a.scale))
    if !ok then (a, false)
    else
      match int64Add a.value c with
      | none => (a, false)
      | some c => ({ a with value := c }, true)

def sub : Int64Amount × Bool := a.add ⟨int64 (-b.value), b.scale⟩

/-- The scales that `Cmp` passes to `divideByScaleInt64`. -/
def cmpScales : List Int :=
  if a.scale = b.scale then []
  else if a.scale > b.scale then [int32 (a.scale - b.scale)]
  else [int32 (b.scale - a.scale)]

/-- The scales that `Add` passes to `positiveScaleInt64`: the same ones, unless there is nothing
to add. -/
def addScales : List Int :=
  if b.value = 0 ∨ a.value = 0 then [] else a.cmpScales b

/-- An `int64` at a scale from `Nano` to `Exa`. -/
structure InRange (a : Int64Amount) : Prop where
  value : IsInt64 a.value
  nano_le : -9 ≤ a.scale
  le_exa : a.scale ≤ 18

variable {a b : Int64Amount}

lemma InRange.toRat_asDec (h : a.InRange) : a.asDec.toRat = a.toRat := by
  have hscale : int32 (-a.scale) = -a.scale :=
    int32_of_bounds ⟨by have := h.le_exa; omega, by have := h.nano_le; omega⟩
  rw [asDec, Dec.toRat, hscale, neg_neg, toRat]

lemma toRat_eq_mul {n : Nat} {scale : Int} (h : a.scale - scale = n) :
    a.toRat = (a.value * 10 ^ n : Int) * 10 ^ scale := by
  have hexp : a.scale = n + scale := by omega
  rw [toRat, hexp, zpow_add₀ (by norm_num), zpow_natCast]
  push_cast
  ring

/-- The difference of two scales, as the code computes it. -/
lemma InRange.scale_sub (ha : a.InRange) (hb : b.InRange) (h : a.scale > b.scale) :
    ∃ n : Nat, 0 < n ∧ a.scale - b.scale = n ∧ int32 (a.scale - b.scale) = n := by
  obtain ⟨-, hb, -⟩ := hb
  obtain ⟨-, -, ha⟩ := ha
  exact ⟨(a.scale - b.scale).toNat, by omega, by omega, by unfold int32; omega⟩

/-- `Add` is exact, or refuses and leaves the receiver as it was. -/
theorem add_spec (ha : a.InRange) (hb : b.InRange) :
    ((a.add b).2 = false → (a.add b).1 = a) ∧
      ((a.add b).2 = true → (a.add b).1.toRat = a.toRat + b.toRat ∧ IsInt64 (a.add b).1.value) := by
  unfold add
  split_ifs with hzero hzero' hscale hgt
  · simp [toRat, hzero, ha.value]
  · simp [toRat, hzero', hb.value]
  · rw [int64Add_eq ha.value hb.value]
    split_ifs with hsum
    · simp [toRat, hscale, hsum, add_mul]
    · simp
  · obtain ⟨n, -, hn, hn'⟩ := ha.scale_sub hb hgt
    obtain ⟨hexact, hover⟩ := positiveScaleInt64_spec ha.value n
    rw [hn', toRat_eq_mul hn]
    by_cases hfits : IsInt64 (a.value * 10 ^ n)
    · rw [hexact hfits]
      simp only [Bool.not_true, Bool.false_eq_true, if_false]
      rw [int64Add_eq hfits hb.value]
      split_ifs with hsum
      · simpa [toRat, add_mul] using hsum
      · simp
    · simp [hover hfits]
  · obtain ⟨n, -, hn, hn'⟩ := hb.scale_sub ha (lt_of_le_of_ne (not_lt.1 hgt) hscale)
    obtain ⟨hexact, hover⟩ := positiveScaleInt64_spec hb.value n
    rw [hn', toRat_eq_mul hn]
    by_cases hfits : IsInt64 (b.value * 10 ^ n)
    · rw [hexact hfits]
      simp only [Bool.not_true, Bool.false_eq_true, if_false]
      rw [int64Add_eq ha.value hfits]
      split_ifs with hsum
      · simpa [toRat, add_mul] using hsum
      · simp
    · simp [hover hfits]

/-- Dividing by a scale compares with the multiple, unless the scale is too great. -/
lemma divideByScaleInt64_spec (base : Int) {n : Nat} (hn : 0 < n) :
    divideByScaleInt64 base n = some (0, base, false) ∨
      divideByScaleInt64 base n = some (base.tdiv (10 ^ n), base.tmod (10 ^ n), true) := by
  unfold divideByScaleInt64
  split_ifs with hzero hbig
  · omega
  · exact .inl rfl
  · right
    have hpow : pow10Int64 n = 10 ^ n := if_pos ⟨by omega, by omega⟩
    simp [hpow]

lemma compare_toRat {x y scale : Int} :
    compare ((x : ℚ) * 10 ^ scale) (y * 10 ^ scale) = compare x y := by
  have hpow : (0 : ℚ) < 10 ^ scale := zpow_pos (by norm_num) _
  rw [← cmp_eq_compare, cmp_mul_pos_right hpow, (Int.cast_strictMono (R := ℚ)).cmp_map_eq,
    cmp_eq_compare]

lemma cmp_eq (ha : a.InRange) (hb : b.InRange) : a.cmp b = some (compare a.toRat b.toRat) := by
  have hdec : a.asDec.cmp b.asDec = compare a.toRat b.toRat := by
    rw [Dec.cmp_eq, ha.toRat_asDec, hb.toRat_asDec]
  unfold cmp cmpWith
  split_ifs with hscale hgt
  · rw [toRat, toRat, hscale, compare_toRat]
  · obtain ⟨n, hpos, hn, hn'⟩ := ha.scale_sub hb hgt
    rw [hn']
    rcases divideByScaleInt64_spec b.value hpos with h | h
    · simp [h, hdec]
    · have hcmp := compare_mul_eq a.value b.value (d := 10 ^ n) (by positivity)
      rw [toRat_eq_mul hn, toRat, compare_toRat, hcmp, h]
      exact (apply_ite some _ _ _).symm
  · obtain ⟨n, hpos, hn, hn'⟩ := hb.scale_sub ha (lt_of_le_of_ne (not_lt.1 hgt) hscale)
    rw [hn']
    rcases divideByScaleInt64_spec a.value hpos with h | h
    · simp [h, hdec]
    have hcmp := congrArg Ordering.swap
      (compare_mul_eq b.value a.value (d := 10 ^ n) (by positivity))
    rw [apply_ite Ordering.swap] at hcmp
    simp only [← Std.OrientedCmp.eq_swap] at hcmp
    rw [toRat_eq_mul hn, toRat, compare_toRat, h, hcmp]
    exact (apply_ite some _ _ _).symm

lemma isSome_divideByScaleInt64 (base scale : Int) :
    (divideByScaleInt64 base scale).isSome ↔ 0 ≤ scale := by
  unfold divideByScaleInt64 pow10Int64
  split_ifs with hzero hbig hrange
  · simp [hzero]
  · simp only [isSome_some, true_iff]
    omega
  · have hpow : ¬ (10 : Int) ^ scale.toNat = 0 := pow_ne_zero _ (by norm_num)
    simp [hpow, hrange.1]
  · simp only [if_true, isSome_none, Bool.false_eq_true, false_iff]
    omega

lemma isSome_cmpWith {cmp : Dec → Dec → Option Ordering} (hcmp : (cmp a.asDec b.asDec).isSome) :
    (a.cmpWith b cmp).isSome ↔ ∀ scale ∈ a.cmpScales b, 0 ≤ scale := by
  unfold cmpWith cmpScales
  split_ifs
  · simp
  · rw [List.forall_mem_singleton, ← isSome_divideByScaleInt64 b.value]
    cases divideByScaleInt64 b.value (int32 (a.scale - b.scale)) with
    | none => simp
    | some r => simp [apply_ite isSome, hcmp]
  · rw [List.forall_mem_singleton, ← isSome_divideByScaleInt64 a.value]
    cases divideByScaleInt64 a.value (int32 (b.scale - a.scale)) with
    | none => simp
    | some r => simp [apply_ite isSome, hcmp]

end Int64Amount

/-! ## Quantities -/

namespace Quantity

variable (q : Quantity)

def isZero : Bool :=
  match q.d with
  | some d => d.unscaled = 0
  | none => q.i.value = 0

/-- `AsDec`, as a number. -/
def asDec : Dec :=
  match q.d with
  | some d => d
  | none => q.i.asDec

def toDec : Quantity :=
  match q.d with
  | some _ => q
  | none => { q with d := some q.i.asDec, i := ⟨0, 0⟩ }

/-- `Add` and `Sub`: in `int64` if both quantities are and that succeeds. -/
def combine (fast : Int64Amount → Int64Amount → Int64Amount × Bool) (slow : Dec → Dec → Dec)
    (q y : Quantity) : Quantity :=
  let q := { q with s := [], format := if q.isZero then y.format else q.format }
  if q.d = none ∧ y.d = none ∧ (fast q.i y.i).2 then { q with i := (fast q.i y.i).1 }
  else { q.toDec with d := some (slow q.asDec y.asDec) }

def add (q y : Quantity) : Quantity := combine Int64Amount.add Dec.add q y

def sub (q y : Quantity) : Quantity := combine Int64Amount.sub Dec.sub q y

/-- `Add` with the `int32` scales of `inf.Dec`; nothing if it panics. -/
def tryAdd (q y : Quantity) : Option Quantity :=
  if q.d = none ∧ y.d = none ∧ (q.i.add y.i).2 then some (q.add y)
  else (q.asDec.tryAdd y.asDec).map fun d => combine Int64Amount.add (fun _ _ => d) q y

/-- `Cmp`; nothing if it divides by zero. The comparison of `inf.Dec` is a parameter. -/
def cmpWith (cmp : Dec → Dec → Option Ordering) (q y : Quantity) : Option Ordering :=
  match q.d, y.d with
  | none, none => q.i.cmpWith y.i cmp
  | _, _ => cmp q.asDec y.asDec

def cmp (q y : Quantity) : Option Ordering := cmpWith (fun x y => some (x.cmp y)) q y

/-- `Cmp` with the `int32` scales of `inf.Dec`; nothing if it panics. -/
def tryCmp (q y : Quantity) : Option Ordering := cmpWith Dec.tryCmp q y

def cmpInt64 (y : Int) : Option Ordering :=
  match q.d with
  | some d => some (d.cmp ⟨y, 0⟩)
  | none => q.i.cmp ⟨y, 0⟩

def neg : Quantity :=
  match q.d with
  | none => { q with s := [], i := { q.i with value := int64 (-q.i.value) } }
  | some d => { q with s := [], d := some d.neg }

/-- `NewScaledQuantity`, with a format. -/
def newScaledQuantity (value scale : Int) (format : Format) : Quantity :=
  ⟨⟨value, scale⟩, none, [], format⟩

/-- The scales that `Cmp` and `Add` pass on. -/
def scales (q y : Quantity) : List Int :=
  match q.d, y.d with
  | none, none => q.i.cmpScales y.i ++ q.i.addScales y.i
  | _, _ => []

/-- The `int64` amount, if that is what holds the number, is in the range. -/
def InRange : Prop := q.d = none → q.i.InRange

variable {p q : Quantity}

lemma InRange.toRat_asDec (h : q.InRange) : q.asDec.toRat = q.toRat := by
  cases hd : q.d with
  | some d => simp [asDec, toRat, hd]
  | none => simp [asDec, toRat, hd, (h hd).toRat_asDec]

/-- The number of a sum or a difference, whichever path computes it. -/
lemma toRat_combine {fast : Int64Amount → Int64Amount → Int64Amount × Bool}
    {slow : Dec → Dec → Dec} {op : ℚ → ℚ → ℚ}
    (hslow : ∀ x y, (slow x y).toRat = op x.toRat y.toRat) (hp : p.InRange) (hq : q.InRange)
    (hfast : p.d = none → q.d = none → (fast p.i q.i).2 = true →
      (fast p.i q.i).1.toRat = op p.i.toRat q.i.toRat) :
    (combine fast slow p q).toRat = op p.toRat q.toRat := by
  unfold combine
  by_cases hboth : p.d = none ∧ q.d = none ∧ (fast p.i q.i).2 = true
  · obtain ⟨hpd, hqd, hok⟩ := hboth
    simp [toRat, hpd, hqd, hok, hfast hpd hqd hok]
  · rw [if_neg hboth, ← hp.toRat_asDec, ← hq.toRat_asDec, ← hslow]
    rfl

/-- Sums and comparisons are exact in either representation, and the sum in `int64` is exact and
in range, or refused with the receiver unchanged. -/
theorem add_cmp_exact (hp : p.InRange) (hq : q.InRange) :
    (p.add q).toRat = p.toRat + q.toRat ∧ p.cmp q = some (compare p.toRat q.toRat) ∧
      (∀ y : Int, IsInt64 y → p.cmpInt64 y = some (compare p.toRat y)) ∧
      ∀ a b : Int64Amount, a.InRange → b.InRange →
        ((a.add b).2 = false → (a.add b).1 = a) ∧
          ((a.add b).2 = true →
            (a.add b).1.toRat = a.toRat + b.toRat ∧ IsInt64 (a.add b).1.value) := by
  refine ⟨?_, ?_, fun y hy => ?_, fun a b ha hb => Int64Amount.add_spec ha hb⟩
  · exact toRat_combine Dec.toRat_add hp hq fun hpd hqd hok =>
      ((Int64Amount.add_spec (hp hpd) (hq hqd)).2 hok).1
  · unfold cmp cmpWith
    split
    · rename_i hpd hqd
      exact (Int64Amount.cmp_eq (hp hpd) (hq hqd)).trans (by simp [toRat, hpd, hqd])
    · dsimp only
      rw [Dec.cmp_eq, hp.toRat_asDec, hq.toRat_asDec]
  · have hrange : Int64Amount.InRange ⟨y, 0⟩ := ⟨hy, by norm_num, by norm_num⟩
    cases hd : p.d with
    | some d => simp [cmpInt64, toRat, hd, Dec.cmp_eq, Dec.toRat]
    | none => simp [cmpInt64, toRat, hd, Int64Amount.cmp_eq (hp hd) hrange, Int64Amount.toRat]

/-- At the greatest `int64` the sum goes over to `inf.Dec`. -/
theorem add_cmp_exact_greatest :
    let p := newScaledQuantity (2 ^ 63 - 1) 0 .decimalSI
    let q := newScaledQuantity 1 (-9) .decimalSI
    (p.add q).toRat = 2 ^ 63 - 1 + 10 ^ (-9 : Int) ∧ p.cmp q = some .gt := by
  have hp : (newScaledQuantity (2 ^ 63 - 1) 0 .decimalSI).InRange := fun _ => by
    constructor <;> decide
  have hq : (newScaledQuantity 1 (-9) .decimalSI).InRange := fun _ => by constructor <;> decide
  obtain ⟨hadd, hcmp, -⟩ := add_cmp_exact hp hq
  refine ⟨?_, ?_⟩
  · rw [hadd]
    norm_num [toRat, newScaledQuantity, Int64Amount.toRat]
  · rw [hcmp, some_inj, compare_gt_iff_gt]
    norm_num [toRat, newScaledQuantity, Int64Amount.toRat]

/-- Differences and negations are exact, unless the number is the least `int64`: that is its own
negation. -/
theorem sub_neg_exact_iff (hp : p.InRange) (hq : q.InRange) :
    ((p.sub q).toRat = p.toRat - q.toRat ∧ q.neg.toRat = -q.toRat) ↔
      ¬ (q.d = none ∧ q.i.value = -2 ^ 63) := by
  constructor
  · rintro ⟨-, hneg⟩ ⟨hd, hvalue⟩
    have hpow : (0 : ℚ) < 10 ^ q.i.scale := zpow_pos (by norm_num) _
    have hwrap : int64 (- -2 ^ 63) = -2 ^ 63 := rfl
    simp only [neg, hd, toRat, Int64Amount.toRat] at hneg
    rw [hvalue, hwrap] at hneg
    push_cast at hneg
    linarith
  intro hcond
  have hvalue : q.d = none → int64 (-q.i.value) = -q.i.value ∧ IsInt64 (-q.i.value) := by
    intro hd
    have hne : q.i.value ≠ -2 ^ 63 := fun h => hcond ⟨hd, h⟩
    have hrange : IsInt64 (-q.i.value) := by
      have := (hq hd).value
      unfold IsInt64 at *
      omega
    exact ⟨hrange.int64_eq, hrange⟩
  constructor
  · refine toRat_combine Dec.toRat_sub hp hq fun hpd hqd hok => ?_
    obtain ⟨hwrap, hrange⟩ := hvalue hqd
    have hneg : Int64Amount.InRange ⟨-q.i.value, q.i.scale⟩ :=
      ⟨hrange, (hq hqd).nano_le, (hq hqd).le_exa⟩
    unfold Int64Amount.sub at hok ⊢
    rw [hwrap] at hok ⊢
    rw [((Int64Amount.add_spec (hp hpd) hneg).2 hok).1, sub_eq_add_neg]
    simp [Int64Amount.toRat]
  · cases hd : q.d with
    | some d => simp [neg, toRat, hd, Dec.toRat_neg]
    | none => simp [neg, toRat, hd, Int64Amount.toRat, (hvalue hd).1]

theorem sub_neg_exact_one :
    let q := newScaledQuantity 1 0 .decimalSI
    (q.sub q).toRat = q.toRat - q.toRat ∧ q.neg.toRat = -q.toRat := by
  have hq : (newScaledQuantity 1 0 .decimalSI).InRange := fun _ => by constructor <;> decide
  exact (sub_neg_exact_iff hq hq).2 (by decide)

/-- Zero minus the least `int64` is negative, and so is its negation. -/
theorem sub_neg_least :
    let q := newScaledQuantity (-2 ^ 63) 0 .decimalSI
    ((newScaledQuantity 0 0 .decimalSI).sub q).toRat = -2 ^ 63 ∧ q.neg.toRat = -2 ^ 63 := by
  constructor <;> norm_num [sub, combine, Int64Amount.sub, Int64Amount.add, neg, toRat,
    newScaledQuantity, Int64Amount.toRat, int64]

lemma scale_bounds {str : List Char} : parseQuantity str = .ok q →
    -2 ^ 31 ≤ q.i.scale ∧ q.i.scale < 2 ^ 31 := by
  have hzero : (-2 ^ 31 : Int) ≤ 0 ∧ (0 : Int) < 2 ^ 31 := by decide
  fun_cases parseQuantity str <;> intro h
  case case5 parts _ _ exponent format _ _ hfast =>
    -- the path in `int64`
    subst h
    revert hfast
    fun_cases fastPath str parts exponent format <;> intro hfast
    case case2 =>
      obtain ⟨result, -, hok⟩ := map_eq_some_iff.1 hfast
      cases hok
      exact int32_bounds _
    all_goals cases hfast
  case case6 =>
    unfold slowPath at h
    split at h
    · cases h
    · cases h
      exact hzero
  all_goals cases h
  exact hzero

/-- The comparison and the sum of parsed quantities do not panic and pass on no negative scale,
unless both are `int64` amounts with scales so far apart that the difference wraps, or one is an
`inf.Dec` and the difference of the scales wraps to the least `int32`. -/
theorem cmp_defined_iff {str str' : List Char} (hp : parseQuantity str = .ok p)
    (hq : parseQuantity str' = .ok q) :
    ((p.tryCmp q).isSome ∧ (p.tryAdd q).isSome ∧ ∀ scale ∈ p.scales q, 0 ≤ scale) ↔
      if p.d = none ∧ q.d = none then |p.i.scale - q.i.scale| < 2 ^ 31
      else int32 (p.asDec.scale - q.asDec.scale) ≠ -2 ^ 31 := by
  have hp := scale_bounds hp
  have hq := scale_bounds hq
  have hgap : (∀ scale ∈ p.i.cmpScales q.i, 0 ≤ scale) ↔ |p.i.scale - q.i.scale| < 2 ^ 31 := by
    unfold Int64Amount.cmpScales int32
    rw [abs_lt]
    split_ifs
    · simp only [List.not_mem_nil, false_imp_iff, implies_true, true_iff]
      omega
    · rw [List.forall_mem_singleton]
      omega
    · rw [List.forall_mem_singleton]
      omega
  have hadd : (∀ scale ∈ p.i.cmpScales q.i, 0 ≤ scale) → ∀ scale ∈ p.i.addScales q.i, 0 ≤ scale := by
    unfold Int64Amount.addScales
    split_ifs
    · simp
    · exact id
  unfold tryCmp cmpWith tryAdd scales
  split
  · rename_i hpd hqd
    rw [List.forall_mem_append, hgap, if_pos (And.intro hpd hqd)]
    rw [hgap] at hadd
    refine ⟨fun h => h.2.2.1, fun h => ?_⟩
    have hdec : (p.i.asDec.upscale q.i.asDec).isSome := by
      rw [abs_lt] at h
      rw [Dec.isSome_upscale, Int64Amount.asDec, Int64Amount.asDec, int32_sub,
        int32_of_bounds (by omega)]
      omega
    refine ⟨?_, ?_, h, hadd h⟩
    · rw [Int64Amount.isSome_cmpWith (by rw [Dec.tryCmp, isSome_map]; exact hdec), hgap]
      exact h
    · split_ifs
      · rfl
      · rw [isSome_map, Dec.tryAdd, isSome_map, asDec, asDec, hpd, hqd]
        exact hdec
  · rename_i hdec
    have hnot : ¬ (p.d = none ∧ q.d = none) := fun h => hdec h.1 h.2
    rw [if_neg hnot, if_neg fun h => hnot ⟨h.1, h.2.1⟩, Dec.tryCmp, Dec.tryAdd]
    simp [Dec.isSome_upscale]

theorem cmp_defined_kilo :
    let p : Quantity := ⟨⟨1, 0⟩, none, "1".toList, .decimalSI⟩
    let q : Quantity := ⟨⟨1, 3⟩, none, "1k".toList, .decimalSI⟩
    (p.tryCmp q).isSome ∧ (p.tryAdd q).isSome ∧ ∀ scale ∈ p.scales q, 0 ≤ scale := by
  intro p q
  have hp : parseQuantity "1".toList = .ok p := by decide +kernel
  have hq : parseQuantity "1k".toList = .ok q := by decide +kernel
  exact (cmp_defined_iff hp hq).2 (by decide)

/-- The greatest exponent and a nano: the comparison divides by zero, and the sum is taken at a
negative scale. -/
theorem cmp_divides_by_zero :
    let p : Quantity := ⟨⟨1, 2 ^ 31 - 1⟩, none, [], .decimalExponent⟩
    let q : Quantity := ⟨⟨1, -9⟩, none, "1n".toList, .decimalSI⟩
    parseQuantity "1e2147483647".toList = .ok p ∧ parseQuantity "1n".toList = .ok q ∧
      p.tryCmp q = none ∧ p.i.addScales q.i = [-2 ^ 31 + 8] := by
  decide +kernel

-- one of the two is an `inf.Dec`, and the scales differ by `2 ^ 31`
example : (parseQuantity "1e2147483639".toList).toOption.bind (fun p =>
    (parseQuantity "0.0000000001".toList).toOption.map fun q => (p.tryCmp q, p.tryAdd q)) =
      some (none, none) := by
  decide +kernel

end Quantity

end Kubernetes.Resource
