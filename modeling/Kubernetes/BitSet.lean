import Kubernetes.Core
import Mathlib.Data.Nat.BitIndices

/-! # Finite sets of positions as natural numbers

A bit array is a natural number; `bits` is the set of the positions that are
set. Besides the updates of one bit there are two ways to read a whole array:

* cut into digits of `w` bits, lowest first (`bitIndices_ofDigits`): machine words
  and bytes are the cases `w = 64` and `w = 8`;
* as big-endian bytes without leading zeros (`toBytes`, `ofBytes`).
-/

namespace Kubernetes.BitSet

open List Nat

/-! ## The set of a bit array -/

variable (n : Nat)

def bits : Finset Nat := n.bitIndices.toFinset

@[simp]
lemma mem_bits {n i : Nat} : i ∈ bits n ↔ n.testBit i = true := by
  simp [bits]

@[simp]
lemma bits_zero : bits 0 = ∅ := by
  simp [bits]

lemma bits_injective : Function.Injective bits := by
  intro n m h
  refine eq_of_testBit_eq fun i => ?_
  rw [Bool.eq_iff_iff, ← mem_bits, ← mem_bits, h]

lemma card_bits : (bits n).card = n.bitIndices.length :=
  toFinset_card_of_nodup bitIndices_nodup

def setBit (n i : Nat) : Nat := n ||| 2 ^ i

def clearBit (n i : Nat) : Nat := n ^^^ (n &&& 2 ^ i)

@[simp]
lemma bits_setBit (n i : Nat) : bits (setBit n i) = insert i (bits n) := by
  ext j
  rw [mem_bits, Finset.mem_insert, mem_bits]
  unfold setBit
  rw [testBit_or, testBit_two_pow, Bool.or_eq_true, decide_eq_true_eq, or_comm,
    eq_comm (a := i)]

@[simp]
lemma bits_clearBit (n i : Nat) : bits (clearBit n i) = (bits n).erase i := by
  ext j
  rw [mem_bits, Finset.mem_erase, mem_bits]
  unfold clearBit
  rw [testBit_xor, testBit_and, testBit_two_pow]
  by_cases h : i = j
  · simp [h]
  · simp [h, Ne.symm h]

/-! ## Digits of `w` bits -/

/-- The positions of a number that is cut at `w`: those of the low part, then
those of the high part, moved up. -/
lemma bitIndices_add {w x : Nat} (hx : x < 2 ^ w) (y : Nat) :
    (x + 2 ^ w * y).bitIndices = x.bitIndices ++ y.bitIndices.map (· + w) := by
  rw [← bitIndices_two_pow_mul]
  refine List.SortedLT.eq_of_mem_iff bitIndices_sorted ?_ fun i => ?_
  · rw [sortedLT_iff_pairwise, pairwise_append]
    refine ⟨bitIndices_sorted.pairwise, bitIndices_sorted.pairwise, fun i hi j hj => ?_⟩
    have hlow : i < w :=
      (Nat.pow_lt_pow_iff_right Nat.one_lt_two).1
        (Nat.lt_of_le_of_lt (Nat.two_pow_le_of_mem_bitIndices hi) hx)
    rw [Nat.bitIndices_two_pow_mul, mem_map] at hj
    obtain ⟨k, -, rfl⟩ := hj
    omega
  · rw [mem_append, mem_bitIndices, mem_bitIndices, mem_bitIndices, add_comm,
      testBit_two_pow_mul_add _ hx, testBit_two_pow_mul]
    by_cases hi : i < w
    · simp [hi]
    -- above the cut the low part has no bit
    have hxi : x.testBit i = false :=
      Nat.testBit_lt_two_pow (hx.trans_le (Nat.pow_le_pow_right Nat.two_pos (not_lt.1 hi)))
    simp [hi, hxi, not_lt.1 hi]

/-- The positions of an array given by its digits of `w` bits, lowest first. -/
def digitBits (w : Nat) : List Nat → List Nat
  | [] => []
  | d :: ds => d.bitIndices ++ (digitBits w ds).map (· + w)

theorem bitIndices_ofDigits {w : Nat} {ds : List Nat} (h : ∀ d ∈ ds, d < 2 ^ w) :
    (ofDigits (2 ^ w) ds).bitIndices = digitBits w ds := by
  induction ds with
  | nil => simp [ofDigits, digitBits]
  | cons d ds ih =>
    rw [ofDigits_cons, bitIndices_add (h d mem_cons_self),
      ih (forall_mem_cons.1 h).2, digitBits]

lemma bitIndices_digits {w : Nat} (hw : 0 < w) (n : Nat) :
    n.bitIndices = digitBits w (Nat.digits (2 ^ w) n) := by
  have hbase : 1 < 2 ^ w := Nat.one_lt_two_pow hw.ne'
  rw [← bitIndices_ofDigits fun d hd => Nat.digits_lt_base hbase hd, Nat.ofDigits_digits]

lemma length_digitBits (w : Nat) (ds : List Nat) :
    (digitBits w ds).length = (ds.map fun d => d.bitIndices.length).sum := by
  induction ds with
  | nil => rfl
  | cons d ds ih => rw [digitBits, length_append, length_map, ih, map_cons, sum_cons]

lemma flatMap_zipIdx (w : Nat) (ds : List Nat) (k : Nat) :
    (ds.zipIdx k).flatMap (fun p => p.1.bitIndices.map (p.2 * w + ·)) =
      (digitBits w ds).map (k * w + ·) := by
  induction ds generalizing k with
  | nil => rfl
  | cons d ds ih =>
    rw [zipIdx_cons, flatMap_cons, ih, digitBits, map_append, map_map]
    congr 1
    refine map_congr_left fun i _ => ?_
    show (k + 1) * w + i = k * w + (i + w)
    ring

/-- The bits of a number below `2 ^ w`, tested one by one. -/
lemma filter_testBit {w n : Nat} (h : n < 2 ^ w) :
    (List.range w).filter n.testBit = n.bitIndices := by
  refine List.SortedLT.eq_of_mem_iff ?_ bitIndices_sorted fun i => ?_
  · exact (pairwise_lt_range.filter _).sortedLT
  · rw [mem_filter, mem_range, mem_bitIndices, and_iff_right_iff_imp]
    intro hi
    exact (Nat.pow_lt_pow_iff_right Nat.one_lt_two).1 ((Nat.ge_two_pow_of_testBit hi).trans_lt h)

/-! ## Bytes -/

/-- Big-endian bytes, without leading zeros. -/
def toBytes : List UInt8 := (Nat.digits 256 n).reverse.map UInt8.ofNat

/-- The number with these big-endian bytes. -/
def ofBytes (bytes : List UInt8) : Nat := bytes.foldl (fun n b => n * 256 + b.toNat) 0

lemma map_toNat_toBytes : (toBytes n).map UInt8.toNat = (digits 256 n).reverse := by
  unfold toBytes
  rw [map_map]
  conv_rhs => rw [← map_id (digits 256 n).reverse]
  refine map_congr_left fun d hd => ?_
  exact UInt8.toNat_ofNat_of_lt' (digits_lt_base (by decide) (mem_reverse.1 hd))

lemma ofBytes_toBytes : ofBytes (toBytes n) = n := by
  have hfold : ofBytes (toBytes n) =
      ((toBytes n).map UInt8.toNat).foldl (fun m d => m * 256 + d) 0 := by
    rw [foldl_map]
    rfl
  rw [hfold, map_toNat_toBytes, foldl_reverse]
  conv_rhs => rw [← ofDigits_digits 256 n]
  rw [ofDigits_eq_foldr]
  simp [add_comm, mul_comm]

lemma ofBytes_lt (bytes : List UInt8) : ofBytes bytes < 2 ^ (8 * bytes.length) := by
  induction bytes using reverseRecOn with
  | nil => decide
  | append_singleton bytes b ih =>
    have hb := b.toNat_lt
    have hlast : ofBytes (bytes ++ [b]) = ofBytes bytes * 256 + b.toNat := foldl_concat ..
    have hpow : 2 ^ (8 * (bytes ++ [b]).length) = 2 ^ (8 * bytes.length) * 256 := by
      rw [length_append, length_singleton, mul_add, pow_add]
      rfl
    omega

lemma lt_of_mem_bits_ofBytes {bytes : List UInt8} {i : Nat} (h : i ∈ bits (ofBytes bytes)) :
    i < 8 * bytes.length :=
  (Nat.pow_lt_pow_iff_right Nat.one_lt_two).1
    ((Nat.ge_two_pow_of_testBit (mem_bits.1 h)).trans_lt (ofBytes_lt bytes))

lemma card_bits_bytes :
    (bits n).card = ((toBytes n).map fun b => b.toNat.bitIndices.length).sum := by
  rw [card_bits, bitIndices_digits (by decide : 0 < 8), length_digitBits]
  have hmap : (toBytes n).map (fun b => b.toNat.bitIndices.length) =
      ((toBytes n).map UInt8.toNat).map fun d => d.bitIndices.length := by
    rw [map_map]
    rfl
  rw [hmap, map_toNat_toBytes, map_reverse, sum_reverse]
  rfl

end Kubernetes.BitSet
