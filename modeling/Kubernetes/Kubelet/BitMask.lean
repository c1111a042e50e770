import Kubernetes.Core

/-! # Sets of NUMA nodes

A model of `topologymanager/bitmask`: a mask is a machine word with one bit for each of the
NUMA nodes 0 to 63.
-/

namespace Kubernetes.Kubelet

open Int List

abbrev BitMask := BitVec 64

namespace BitMask

/-- The body of the loop of `Add`. -/
def addBit (mask : BitMask) (i : Int) : Except String BitMask :=
  if i < 0 ∨ i ≥ 64 then .error "bit number must be in range 0-63"
  else .ok (mask ||| BitVec.twoPow 64 i.toNat)

variable (s : BitMask) (bits : List Int)

def add : Except String BitMask := bits.foldlM addBit s

def newBitMask : Except String BitMask := add 0 bits

/-- The method `And`, and the function of the same name. -/
def and (first : BitMask) (masks : List BitMask) : BitMask := masks.foldl (· &&& ·) first

/-- The numbers of the bits that are set, as `Count` and `GetBits` walk them. -/
def set : List Nat := (List.range 64).filter s.getLsbD

def count : Nat := s.set.length

def getBits : List Int := s.set.map ofNat

def isNarrowerThan (s mask : BitMask) : Bool :=
  if s.count = mask.count ∧ s < mask then true else s.count < mask.count

/-- `IterateBitMasks`: the masks with `size` of the given bits, in the order of the calls of
the callback. -/
def iterate (size : Nat) : List Int → List Int → List (List Int)
  | [], accum => if accum.length = size then [accum] else []
  | bit :: bits, accum =>
    if accum.length = size then [accum]
    else iterate size bits (accum ++ [bit]) ++ iterate size bits accum

/-! ## The bits of a mask -/

variable {s : BitMask}

lemma mem_set {i : Nat} : i ∈ s.set ↔ s.getLsbD i = true := by
  unfold set
  rw [mem_filter, mem_range]
  refine ⟨fun h => h.2, fun h => ⟨?_, h⟩⟩
  by_contra hi
  rw [BitVec.getLsbD_of_ge s i (not_lt.1 hi)] at h
  cases h

variable {n : Int}

lemma mem_getBits :
    n ∈ s.getBits ↔ 0 ≤ n ∧ s.getLsbD n.toNat = true := by
  unfold getBits
  rw [mem_map]
  constructor
  · rintro ⟨i, hi, rfl⟩
    exact ⟨natCast_nonneg i, mem_set.1 hi⟩
  · rintro ⟨h0, h⟩
    exact ⟨n.toNat, mem_set.2 h, toNat_of_nonneg h0⟩

lemma range_of_mem_getBits (h : n ∈ s.getBits) : 0 ≤ n ∧ n < 64 := by
  obtain ⟨h0, h⟩ := mem_getBits.1 h
  refine ⟨h0, ?_⟩
  by_contra hn
  rw [BitVec.getLsbD_of_ge s _ (by omega)] at h
  cases h

lemma set_pairwise (s : BitMask) : s.set.Pairwise (· < ·) := pairwise_lt_range.filter _

lemma getBits_pairwise (s : BitMask) : s.getBits.Pairwise (· < ·) := by
  unfold getBits
  rw [pairwise_map]
  exact s.set_pairwise.imp fun h => ofNat_lt.2 h

lemma length_getBits (s : BitMask) : s.getBits.length = s.count := length_map _

lemma ext_getBits {t : BitMask} (h : ∀ n, n ∈ s.getBits ↔ n ∈ t.getBits) : s = t := by
  apply BitVec.eq_of_getLsbD_eq
  intro i _
  have hi := h (ofNat i)
  rw [mem_getBits, mem_getBits] at hi
  rw [Bool.eq_iff_iff]
  exact and_congr_right_iff.1 hi (natCast_nonneg i)

lemma count_eq_zero : s.count = 0 ↔ ∀ n, n ∉ s.getBits := by
  rw [← length_getBits, length_eq_zero_iff, eq_nil_iff_forall_not_mem]

lemma count_eq_one : s.count = 1 ↔ ∃ n, s.getBits = [n] := by
  rw [← length_getBits, length_eq_one_iff]

/-! ## Intersections -/

lemma mem_getBits_and {first : BitMask} {masks : List BitMask} :
    n ∈ (and first masks).getBits ↔ n ∈ first.getBits ∧ ∀ m ∈ masks, n ∈ m.getBits := by
  induction masks generalizing first with
  | nil => simp [and]
  | cons m masks ih =>
    have hstep : and first (m :: masks) = and (first &&& m) masks := rfl
    have hand : n ∈ getBits (first &&& m) ↔ n ∈ first.getBits ∧ n ∈ m.getBits := by
      rw [mem_getBits, mem_getBits, mem_getBits, BitVec.getLsbD_and, Bool.and_eq_true]
      constructor
      · rintro ⟨h0, h1, h2⟩
        exact ⟨⟨h0, h1⟩, h0, h2⟩
      · rintro ⟨⟨h0, h1⟩, -, h2⟩
        exact ⟨h0, h1, h2⟩
    rw [hstep, ih, hand, forall_mem_cons, and_assoc]

lemma and_perm {first : BitMask} {masks masks' : List BitMask} (h : masks.Perm masks') :
    and first masks = and first masks' := by
  apply ext_getBits
  intro n
  rw [mem_getBits_and, mem_getBits_and]
  refine and_congr_right fun _ => ⟨fun hm m hmem => hm m (h.mem_iff.2 hmem), fun hm m hmem => ?_⟩
  exact hm m (h.mem_iff.1 hmem)

/-! ## Masks from lists -/

/-- The numbers a mask can hold. -/
def Valid : Prop := ∀ n ∈ bits, 0 ≤ n ∧ n < 64

lemma addBit_ok (mask : BitMask) {i : Int} (h : 0 ≤ i ∧ i < 64) :
    ∃ mask', addBit mask i = .ok mask' ∧ ∀ n, n ∈ mask'.getBits ↔ n ∈ mask.getBits ∨ n = i := by
  refine ⟨mask ||| BitVec.twoPow 64 i.toNat, if_neg (by omega), fun n => ?_⟩
  rw [mem_getBits, mem_getBits, BitVec.getLsbD_or, BitVec.getLsbD_twoPow, Bool.or_eq_true,
    Bool.and_eq_true, decide_eq_true_eq, decide_eq_true_eq]
  constructor
  · rintro ⟨h0, h1 | ⟨-, h1⟩⟩
    · exact .inl ⟨h0, h1⟩
    · exact .inr (by omega)
  · rintro (⟨h0, h1⟩ | rfl)
    · exact ⟨h0, .inl h1⟩
    · exact ⟨h.1, .inr ⟨by omega, rfl⟩⟩

lemma add_ok {bits : List Int} (h : Valid bits) :
    ∃ m, add s bits = .ok m ∧ ∀ n, n ∈ m.getBits ↔ n ∈ s.getBits ∨ n ∈ bits := by
  induction bits generalizing s with
  | nil => exact ⟨s, rfl, by simp⟩
  | cons i bits ih =>
    obtain ⟨s', hs', hmem'⟩ := addBit_ok s (h i mem_cons_self)
    obtain ⟨m, hm, hmem⟩ := ih (s := s') (forall_mem_cons.1 h).2
    refine ⟨m, ?_, fun n => ?_⟩
    · unfold add
      rw [foldlM_cons, hs']
      exact hm
    · rw [hmem, hmem', mem_cons, or_assoc]

lemma newBitMask_ok {bits : List Int} (h : Valid bits) :
    ∃ m, newBitMask bits = .ok m ∧ ∀ n, n ∈ m.getBits ↔ n ∈ bits := by
  obtain ⟨m, hm, hmem⟩ := add_ok (s := 0) h
  refine ⟨m, hm, fun n => ?_⟩
  rw [hmem]
  have hzero : n ∉ getBits 0 := by
    rw [mem_getBits]
    simp
  exact or_iff_right hzero

end BitMask

end Kubernetes.Kubelet
