import Kubernetes.Decimal
import Kubernetes.GoMap

/-! # Parsing a quantity

`ParseQuantity` scans a string into a sign, the digits before and after the point and a
suffix, interprets the suffix, and computes the number on one of two paths: in `int64` if
the digits are few, with `inf.Dec` otherwise.

A string is the list of its characters: the scanner looks at single bytes, and every byte of
a character that is not ASCII is refused as the character is here. The lengths and scales
that the code keeps in an `int32` are converted as there. `inf.Dec` itself and `math/big`
are exact: their operations are those of the integers.
-/

namespace Kubernetes.Resource

open Decimal

inductive ParseError where
  | errFormatWrong
  | errNumeric
  | errSuffix
deriving DecidableEq

inductive Format where
  | decimalExponent
  | binarySI
  | decimalSI
deriving DecidableEq

/-! ## Suffixes -/

structure BEPair where
  base : Int
  exponent : Int
deriving DecidableEq

/-- `addSuffix`: a later pair replaces an earlier one of the same suffix. -/
def listSuffixer (pairs : List (String × BEPair)) : GoMap (List Char) BEPair :=
  pairs.foldl (fun suffixToBE p => suffixToBE.insert p.1.toList p.2) ∅

def binSuffixes : GoMap (List Char) BEPair :=
  listSuffixer [("Ki", ⟨2, 10⟩), ("Mi", ⟨2, 20⟩), ("Gi", ⟨2, 30⟩), ("Ti", ⟨2, 40⟩),
    ("Pi", ⟨2, 50⟩), ("Ei", ⟨2, 60⟩)]

def decSuffixes : GoMap (List Char) BEPair :=
  listSuffixer [("", ⟨2, 0⟩), ("n", ⟨10, -9⟩), ("u", ⟨10, -6⟩), ("m", ⟨10, -3⟩), ("", ⟨10, 0⟩),
    ("k", ⟨10, 3⟩), ("M", ⟨10, 6⟩), ("G", ⟨10, 9⟩), ("T", ⟨10, 12⟩), ("P", ⟨10, 15⟩),
    ("E", ⟨10, 18⟩)]

/-- `suffixHandler.interpret` -/
def suffixHandlerInterpret (suffix : List Char) : Option (BEPair × Format) :=
  match decSuffixes.lookup suffix with
  | some pair => some (pair, .decimalSI)
  | none =>
    match binSuffixes.lookup suffix with
    | some pair => some (pair, .binarySI)
    | none =>
      match suffix with
      | c :: rest =>
        if suffix.length > 1 ∧ (c = 'E' ∨ c = 'e') then
          (atoi rest).map fun parsed => (⟨10, int32 parsed⟩, .decimalExponent)
        else none
      | [] => none

/-- `fastLookup.interpret` -/
def interpret (suffix : List Char) : Option (BEPair × Format) :=
  match suffix with
  | [] => some (⟨10, 0⟩, .decimalSI)
  | ['n'] => some (⟨10, -9⟩, .decimalSI)
  | ['u'] => some (⟨10, -6⟩, .decimalSI)
  | ['m'] => some (⟨10, -3⟩, .decimalSI)
  | ['k'] => some (⟨10, 3⟩, .decimalSI)
  | ['M'] => some (⟨10, 6⟩, .decimalSI)
  | ['G'] => some (⟨10, 9⟩, .decimalSI)
  | suffix => suffixHandlerInterpret suffix

/-! ## The scanner -/

/-- The results of `parseQuantityString`. -/
structure Scanned where
  positive : Bool
  value : List Char
  num : List Char
  denom : List Char
  suffix : List Char
deriving DecidableEq

def suffixChar (c : Char) : Bool := c ∈ "eEinumkKMGTP".toList

/-- The denominator, if there is a point, and the rest of the string. -/
def scanDenom : List Char → List Char × List Char
  | '.' :: rest => (rest.takeWhile Char.isDigit, rest.dropWhile Char.isDigit)
  | rest => ([], rest)

/-- Whether the scanner accepts the rest of the string as a suffix: letters, a sign and
digits. -/
def scanSuffix (rest : List Char) : Bool :=
  let rest := rest.dropWhile suffixChar
  let rest := (splitSign rest).2
  rest.dropWhile Char.isDigit = []

variable (str : List Char)

/-- `parseQuantityString`; `rest` is what follows the position in the string. -/
def parseQuantityString : Except ParseError Scanned :=
  let (sign, rest) := splitSign str
  let positive : Bool := sign ≠ .minus
  -- strip leading zeros
  let rest := rest.dropWhile (· = '0')
  if rest = [] then .ok ⟨positive, ['0'], ['0'], [], []⟩
  else
    let num := rest.takeWhile Char.isDigit
    let rest := rest.dropWhile Char.isDigit
    if rest = [] then .ok ⟨positive, str, num, [], []⟩
    else
      -- if we stripped all numerator positions, always return 0
      let num := if num.length = 0 then ['0'] else num
      let (denom, rest) := scanDenom rest
      if rest = [] then .ok ⟨positive, str, num, denom, []⟩
      else if scanSuffix rest then
        .ok ⟨positive, str.take (str.length - rest.length), num, denom, rest⟩
      else .error .errFormatWrong

/-! ## Amounts -/

structure Int64Amount where
  value : Int
  scale : Int
deriving DecidableEq

/-- `inf.Dec`, taken as exact. -/
structure Dec where
  unscaled : Int
  scale : Int
deriving DecidableEq

def int64Multiply (a b : Int) : Option Int :=
  if a = 0 ∨ b = 0 ∨ a = 1 ∨ b = 1 then some (int64 (a * b))
  else if a = -2 ^ 63 ∨ b = -2 ^ 63 then none
  else
    let c := int64 (a * b)
    if c.tdiv b = a then some c else none

namespace Dec

/-- The characters that the loop of `scan` collects, the position of the point in them and
that of the first digit, and what it leaves. -/
def scanLoop : List Char → List Char → Option Nat → Option Nat →
    List Char × Option Nat × Option Nat × List Char
  | [], unscaled, dp, dg => (unscaled, dp, dg, [])
  | ch :: rest, unscaled, dp, dg =>
    if ch = '+' ∨ ch = '-' then
      if unscaled.length > 0 ∨ dp.isSome then (unscaled, dp, dg, ch :: rest)
      else scanLoop rest (unscaled ++ [ch]) dp dg
    else if ch = '.' then
      if dp.isSome then (unscaled, dp, dg, ch :: rest)
      else scanLoop rest unscaled (some unscaled.length) dg
    else if ch.isDigit then
      scanLoop rest (unscaled ++ [ch]) dp (some (dg.getD unscaled.length))
    else (unscaled, dp, dg, ch :: rest)

def setString (s : List Char) : Option Dec :=
  let (unscaled, dp, dg, rest) := scanLoop s [] none none
  if dg = none then none
  else
    match parseInt unscaled with
    | none => none
    | some n =>
      if rest = [] then
        some ⟨n, match dp with | some dp => int32 (unscaled.length - dp) | none => 0⟩
      else none

def neg (x : Dec) : Dec := ⟨-x.unscaled, x.scale⟩

/-- `Round` with `RoundUp`: the quotient at the new scale, one further from zero if there is
a remainder. -/
def roundUp (x : Dec) (scale : Int) : Dec :=
  let shift := scale - x.scale
  let ix := if shift > 0 then x.unscaled * 10 ^ shift.toNat else x.unscaled
  let iy := if shift < 0 then (10 : Int) ^ (-shift).toNat else 1
  let r := ix.tmod iy
  ⟨if r ≠ 0 then ix.tdiv iy + r.sign * iy.sign else ix.tdiv iy, scale⟩

/-- `Cmp`: the unscaled numbers at the greater of the scales. -/
def cmp (x y : Dec) : Ordering :=
  compare (x.unscaled * 10 ^ (y.scale - x.scale).toNat) (y.unscaled * 10 ^ (x.scale - y.scale).toNat)

end Dec

structure Quantity where
  i : Int64Amount
  d : Option Dec
  s : List Char
  format : Format
deriving DecidableEq

/-! ## ParseQuantity -/

def maxInt64Factors : Int := 18

def nano : Int := -9

def maxAllowed : Dec := ⟨2 ^ 63 - 1, 0⟩

def decOne : Dec := ⟨1, 0⟩

def decZero : Dec := ⟨0, 0⟩

variable (format : Format) (exponent : Int)

/-- How many more digits fit into an `int64`. A binary exponent is a multiple of ten, for which
`int32(float32(exponent)*3/10)` is exact. -/
def precision (num denom : List Char) : Int :=
  match format with
  | .decimalExponent | .decimalSI => int32 (maxInt64Factors - int32 (num.length + denom.length))
  | .binarySI =>
    if exponent ≥ 0 ∧ denom.length = 0 then
      int32 (int32 (int32 (15 - int32 num.length) - exponent * 3 / 10) - 1)
    else -1

/-- The number is in canonical form, so that the quantity keeps the string. -/
def canonical (exponent scale value : Int) (shifted : List Char) : Bool :=
  match format with
  | .binarySI => exponent.tmod 10 = 0 ∧ value % 8 ≠ 0
  | .decimalExponent | .decimalSI =>
    scale.tmod 3 = 0 ∧ ¬ "000".toList <:+ shifted ∧ shifted.head? ≠ some '0'

/-- The power of two that the digits are multiplied by. -/
def mantissa (denom : List Char) : Int :=
  match format with
  | .decimalExponent | .decimalSI => 1
  | .binarySI => if exponent ≥ 0 ∧ denom.length = 0 then int64 (2 ^ exponent.toNat) else 1

/-- The scale of all the digits: a denominator shifts the value to the left. -/
def shiftedScale (denom : List Char) : Int :=
  let scale := match format with
    | .decimalExponent | .decimalSI => exponent
    | .binarySI => 0
  int32 (scale - int32 denom.length)

/-- The path in `int64`; `none` if the code goes on to the other one. -/
def fastPath (parts : Scanned) (exponent : Int) (format : Format) :
    Option (Except ParseError Quantity) :=
  let scale := shiftedScale format exponent parts.denom
  if precision format exponent parts.num parts.denom ≥ 0 ∧ scale ≥ nano then
    let shifted := parts.num ++ parts.denom
    match atoi shifted with
    | none => some (.error .errNumeric)
    | some value =>
      (int64Multiply value (mantissa format exponent parts.denom)).map fun result =>
        .ok
          { i := ⟨if parts.positive then result else -result, scale⟩
            d := none
            s := if canonical format exponent scale value shifted then str else []
            format := format }
  else none

/-- The amount without the suffix. -/
def Dec.applySuffix (amount : Dec) (base exponent : Int) : Dec :=
  if base = 10 then ⟨amount.unscaled, int32 (amount.scale + int32 (-exponent))⟩
  else if base = 2 then ⟨amount.unscaled * 2 ^ exponent.toNat, amount.scale⟩
  else amount

/-- Rounds a non-zero amount up to the minimum representable value, and caps it. -/
def Dec.roundAndCap (amount : Dec) (format : Format) : Dec :=
  let amount := if amount.unscaled ≠ 0 then amount.roundUp (-nano) else amount
  if format = .binarySI ∧ amount.cmp maxAllowed = .gt then maxAllowed else amount

/-- The path with `inf.Dec`. -/
def slowPath (parts : Scanned) (base exponent : Int) (format : Format) :
    Except ParseError Quantity :=
  match Dec.setString parts.value with
  | none => .error .errNumeric
  | some amount =>
    let amount := amount.applySuffix base exponent
    let sign := amount.unscaled.sign
    let amount := if sign = -1 then amount.neg else amount
    let amount := amount.roundAndCap format
    -- a binary fraction avoids rounding in another format
    let format :=
      if format = .binarySI ∧ amount.cmp decOne = .lt ∧ amount.cmp decZero = .gt then .decimalSI
      else format
    .ok ⟨⟨0, 0⟩, some (if sign = -1 then amount.neg else amount), [], format⟩

def parseQuantity : Except ParseError Quantity :=
  if str.length = 0 then .error .errFormatWrong
  else if str = ['0'] then .ok ⟨⟨0, 0⟩, none, str, .decimalSI⟩
  else
    match parseQuantityString str with
    | .error err => .error err
    | .ok parts =>
      match interpret parts.suffix with
      | none => .error .errSuffix
      | some (⟨base, exponent⟩, format) =>
        match fastPath str parts exponent format with
        | some res => res
        | none => slowPath parts base exponent format

/-! ## Values -/

def Int64Amount.toRat (a : Int64Amount) : ℚ := a.value * 10 ^ a.scale

def Dec.toRat (x : Dec) : ℚ := x.unscaled * 10 ^ (-x.scale)

/-- The number of a quantity: that of the `inf.Dec` if there is one. -/
def Quantity.toRat (q : Quantity) : ℚ :=
  match q.d with
  | some d => d.toRat
  | none => q.i.toRat

example : parseQuantity "1.5Gi".toList =
    .ok ⟨⟨0, 0⟩, some ⟨1610612736 * 10 ^ 9, 9⟩, [], .binarySI⟩ := by decide +kernel

example : parseQuantity "100.035k".toList =
    .ok ⟨⟨100035, 0⟩, none, "100.035k".toList, .decimalSI⟩ := by decide +kernel

end Kubernetes.Resource
