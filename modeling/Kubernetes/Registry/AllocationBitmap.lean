import Kubernetes.BitSet

/-! # The allocation bitmap

`AllocationBitmap` (pkg/registry/core/service/allocator) is a bitmap of the
offsets that are taken, with a cached count of them. The count is part of the
bitmap's well-formedness: it is that of the bits, always.

What the operations do is said once for each of them, on the set of the offsets
taken (`offsets`). The range of the draw of `rand.Intn` is the caller's choice:
every result about the random scan holds for every draw.
-/

namespace Kubernetes.Registry

open BitSet Bool List

/-! ## Counting bits -/

/-- `bits.OnesCount8`. -/
def onesCount8 (b : UInt8) : Nat := (List.range 8).countP b.toNat.testBit

/-- The number of set bits, counted byte by byte. -/
def countBits (n : Nat) : Nat := (toBytes n).foldl (fun count b => count + onesCount8 b) 0

lemma onesCount8_eq (b : UInt8) : onesCount8 b = b.toNat.bitIndices.length := by
  unfold onesCount8
  rw [countP_eq_length_filter, filter_testBit b.toNat_lt]

lemma countBits_eq (n : Nat) : countBits n = (bits n).card := by
  unfold countBits
  rw [card_bits_bytes, ← foldl_map (f := onesCount8) (g := (· + ·)), ← sum_eq_foldl]
  rw [funext onesCount8_eq]

/-! ## Scan strategies -/

/-- How the next offset is chosen. -/
inductive Strategy where
  | randomScan
  | contiguousScan
  deriving DecidableEq

/-- The offsets in the order in which `AllocateBit` tests them. `draw` stands for
the random source: `rand.Intn(max)` is its remainder. -/
def Strategy.positions (draw max : Nat) : Strategy → List Nat
  | .randomScan => (List.range max).map fun i => (draw % max + i) % max
  | .contiguousScan => List.range max

/-- `AllocateBit`: the first free offset, if the range is not full. -/
def Strategy.allocateBit (strategy : Strategy) (draw allocated max count : Nat) : Option Nat :=
  if count ≥ max then none
  else (strategy.positions draw max).find? fun pos => !allocated.testBit pos

variable {strategy : Strategy} {draw max : Nat}

lemma Strategy.mem_positions {pos : Nat} :
    pos ∈ strategy.positions draw max ↔ pos < max := by
  cases strategy with
  | contiguousScan => exact List.mem_range
  | randomScan =>
    simp only [positions, List.mem_map, List.mem_range]
    constructor
    · rintro ⟨i, hi, rfl⟩
      exact Nat.mod_lt _ (by omega)
    intro hpos
    -- the distance from the draw to `pos`, going up and around
    have hdraw : draw % max < max := Nat.mod_lt _ (by omega)
    rcases le_total (draw % max) pos with hle | hle
    · refine ⟨pos - draw % max, by omega, ?_⟩
      rw [Nat.add_sub_cancel' hle, Nat.mod_eq_of_lt hpos]
    · refine ⟨(pos + max - draw % max) % max, Nat.mod_lt _ (by omega), ?_⟩
      rw [Nat.add_mod_mod, Nat.add_sub_cancel' (by omega), Nat.add_mod_right,
        Nat.mod_eq_of_lt hpos]

lemma Strategy.allocateBit_some {allocated count pos : Nat}
    (h : strategy.allocateBit draw allocated max count = some pos) :
    pos < max ∧ allocated.testBit pos = false := by
  unfold allocateBit at h
  split_ifs at h
  have hfree := find?_some h
  exact ⟨mem_positions.1 (mem_of_find?_eq_some h), by simpa using hfree⟩

/-- With the count of the bits, a search fails only in a full range. -/
lemma Strategy.allocateBit_none {allocated : Nat} :
    strategy.allocateBit draw allocated max (bits allocated).card = none ↔
      max ≤ (bits allocated).card := by
  unfold allocateBit
  constructor
  · intro h
    by_contra hcount
    rw [if_neg hcount, find?_eq_none] at h
    -- all of the range is taken, so there are at least `max` bits
    have hsub : Finset.range max ⊆ bits allocated := by
      intro pos hpos
      rw [mem_bits]
      simpa using h pos (mem_positions.2 (Finset.mem_range.1 hpos))
    have hcard := Finset.card_le_card hsub
    rw [Finset.card_range] at hcard
    exact hcount hcard
  · intro h
    rw [if_pos h]

/-! ## The bitmap -/

/-- A contiguous block of resources. A range specifier is a text; all that is asked of it
is whether two are the same. -/
structure AllocationBitmap (S : Type) where
  strategy : Strategy
  max : Nat
  rangeSpec : S
  count : Nat
  allocated : Nat
  count_eq : count = countBits allocated
  deriving DecidableEq

namespace AllocationBitmap

variable {S : Type}

/-- `NewAllocationMap` and `NewContiguousAllocationMap`: nothing is taken. -/
def empty (strategy : Strategy) (max : Nat) (rangeSpec : S) : AllocationBitmap S :=
  ⟨strategy, max, rangeSpec, 0, 0, by decide⟩

def offsets (r : AllocationBitmap S) : Finset Nat := bits r.allocated

lemma count_eq_card (r : AllocationBitmap S) : r.count = r.offsets.card :=
  r.count_eq.trans (countBits_eq _)

variable {r : AllocationBitmap S} {r' : AllocationBitmap S}

lemma ext_allocated (hstrategy : r.strategy = r'.strategy)
    (hmax : r.max = r'.max) (hspec : r.rangeSpec = r'.rangeSpec)
    (hallocated : r.allocated = r'.allocated) : r = r' := by
  obtain ⟨strategy, max, rangeSpec, count, allocated, hcount⟩ := r
  obtain ⟨strategy', max', rangeSpec', count', allocated', hcount'⟩ := r'
  subst hstrategy hmax hspec hallocated
  subst hcount hcount'
  rfl

variable (r)

/-- Set the bit of a free offset. -/
def mark (offset : Nat) (h : r.allocated.testBit offset = false) : AllocationBitmap S :=
  { r with
    count := r.count + 1
    allocated := setBit r.allocated offset
    count_eq := by
      rw [r.count_eq, countBits_eq, countBits_eq, bits_setBit, Finset.card_insert_of_notMem]
      rw [mem_bits, h]
      exact false_ne_true }

/-- `Allocate`: false if the offset is in use already. -/
def allocate (offset : Nat) : AllocationBitmap S × Bool :=
  if h : r.allocated.testBit offset = true then (r, false)
  else (r.mark offset (eq_false_of_not_eq_true h), true)

/-- `AllocateNext`: no offset if there is none left. -/
def allocateNext (draw : Nat) : AllocationBitmap S × Option Nat :=
  match h : r.strategy.allocateBit draw r.allocated r.max r.count with
  | none => (r, none)
  | some next => (r.mark next (Strategy.allocateBit_some h).2, some next)

/-- `Release`: nothing happens if the offset is free. -/
def release (offset : Nat) : AllocationBitmap S :=
  if h : r.allocated.testBit offset = false then r
  else
    { r with
      count := r.count - 1
      allocated := clearBit r.allocated offset
      count_eq := by
        have hmem : offset ∈ bits r.allocated := mem_bits.2 (eq_true_of_not_eq_false h)
        rw [r.count_eq, countBits_eq, countBits_eq, bits_clearBit, Finset.card_erase_of_mem hmem] }

def has (offset : Nat) : Bool := r.allocated.testBit offset

def free : Int := r.max - r.count

def snapshot : S × List UInt8 := (r.rangeSpec, toBytes r.allocated)

/-- `Restore`: nothing if the range is another one. -/
def restore [DecidableEq S] (r : AllocationBitmap S) (rangeSpec : S) (data : List UInt8) :
    Option (AllocationBitmap S) :=
  if r.rangeSpec ≠ rangeSpec then none
  else some { r with
    allocated := ofBytes data
    count := countBits (ofBytes data)
    count_eq := rfl }

/-- The size of a machine word in bits: `wordSize * 8`. -/
def wordBits : Nat := 64

/-- The loop of `ForEach` over the bits of one word. A word has `wordBits` bits, so
the loop ends within that many rounds. -/
def scanWord : (rounds : Nat) → (word bit : Nat) → List Nat
  | 0, _, _ => []
  | rounds + 1, word, bit =>
    if word > 0 then
      if word &&& 1 ≠ 0 then bit :: scanWord rounds (clearBit word 0 >>> 1) (bit + 1)
      else scanWord rounds (word >>> 1) (bit + 1)
    else []

/-- `ForEach`: the offsets for which the function is called, in that order. -/
def forEach : List Nat :=
  (Nat.digits (2 ^ wordBits) r.allocated).zipIdx.flatMap fun p =>
    (scanWord wordBits p.1 0).map (p.2 * wordBits + ·)

/-! ### What the operations do to the set -/

/-- What no operation changes. -/
def config : Strategy × Nat × S := (r.strategy, r.max, r.rangeSpec)

variable {r}

lemma ext_offsets (hconfig : r.config = r'.config)
    (hoffs : r.offsets = r'.offsets) : r = r' := by
  simp only [config, Prod.mk.injEq] at hconfig
  obtain ⟨hstrategy, hmax, hspec⟩ := hconfig
  exact ext_allocated hstrategy hmax hspec (bits_injective hoffs)

@[simp]
lemma offsets_empty (strategy : Strategy) (max : Nat) (rangeSpec : S) :
    (empty strategy max rangeSpec).offsets = ∅ := bits_zero

@[simp]
lemma offsets_mark (r : AllocationBitmap S) (offset : Nat)
    (h : r.allocated.testBit offset = false) :
    (r.mark offset h).offsets = insert offset r.offsets := bits_setBit _ _

variable {offset : Nat}

lemma has_iff :
    r.has offset = true ↔ offset ∈ r.offsets := mem_bits.symm

lemma testBit_eq_false (h : offset ∉ r.offsets) :
    r.allocated.testBit offset = false := by
  rw [offsets, mem_bits] at h
  exact eq_false_of_not_eq_true h

lemma notMem_offsets (h : r.allocated.testBit offset = false) : offset ∉ r.offsets := by
  rw [offsets, mem_bits, h]
  exact false_ne_true

lemma allocate_of_mem (h : offset ∈ r.offsets) :
    r.allocate offset = (r, false) := dif_pos (mem_bits.1 h)

lemma allocate_of_notMem (h : offset ∉ r.offsets) :
    r.allocate offset = (r.mark offset (testBit_eq_false h), true) := by
  refine dif_neg ?_
  rw [testBit_eq_false h]
  exact false_ne_true

variable (r)

@[simp]
lemma config_allocate (offset : Nat) : (r.allocate offset).1.config = r.config := by
  unfold allocate
  split <;> rfl

@[simp]
lemma config_allocateNext (draw : Nat) : (r.allocateNext draw).1.config = r.config := by
  unfold allocateNext
  split <;> rfl

/-- `AllocateNext` fails in a full range only, and takes a free offset of the range
otherwise. -/
lemma allocateNext_cases (draw : Nat) :
    (r.max ≤ r.offsets.card ∧ r.allocateNext draw = (r, none)) ∨
      (r.offsets.card < r.max ∧ ∃ next h, next < r.max ∧ next ∉ r.offsets ∧
        r.allocateNext draw = (r.mark next h, some next)) := by
  have hnone : r.strategy.allocateBit draw r.allocated r.max r.count = none ↔
      r.max ≤ r.offsets.card := by
    rw [count_eq_card]
    exact Strategy.allocateBit_none
  unfold allocateNext
  split
  · rename_i h
    exact .inl ⟨hnone.1 h, rfl⟩
  rename_i next h
  obtain ⟨hlt, hfree⟩ := Strategy.allocateBit_some h
  have hcard : r.offsets.card < r.max := by
    refine not_le.1 fun hle => ?_
    rw [hnone.2 hle] at h
    cases h
  exact .inr ⟨hcard, next, hfree, hlt, notMem_offsets hfree, rfl⟩

variable {r}

lemma release_of_notMem (h : offset ∉ r.offsets) :
    r.release offset = r := dif_pos (testBit_eq_false h)

@[simp]
lemma offsets_release (r : AllocationBitmap S) (offset : Nat) :
    (r.release offset).offsets = r.offsets.erase offset := by
  by_cases h : offset ∈ r.offsets
  · have hbit : ¬r.allocated.testBit offset = false := by
      rw [mem_bits.1 h]
      exact true_eq_false_eq_False
    rw [release, dif_neg hbit]
    exact bits_clearBit _ _
  · rw [release_of_notMem h, Finset.erase_eq_of_notMem h]

@[simp]
lemma config_release (r : AllocationBitmap S) (offset : Nat) :
    (r.release offset).config = r.config := by
  unfold release
  split <;> rfl

section

variable [DecidableEq S] {r : AllocationBitmap S}

lemma restore_eq_some {rangeSpec : S} {data : List UInt8}
    (h : r.restore rangeSpec data = some r') :
    r.rangeSpec = rangeSpec ∧ r'.config = r.config ∧ r'.offsets = bits (ofBytes data) := by
  unfold restore at h
  split_ifs at h with hspec
  cases h
  exact ⟨not_not.1 hspec, rfl, rfl⟩

lemma isSome_restore {rangeSpec : S} {data : List UInt8} :
    (r.restore rangeSpec data).isSome = true ↔ r.rangeSpec = rangeSpec := by
  unfold restore
  split <;> simp_all

lemma restore_congr (h : r.config = r'.config) (rangeSpec : S)
    (data : List UInt8) : r.restore rangeSpec data = r'.restore rangeSpec data := by
  simp only [config, Prod.mk.injEq] at h
  obtain ⟨hstrategy, hmax, hspec⟩ := h
  unfold restore
  rw [hstrategy, hmax, hspec]

end

/-! ### Enumeration -/

lemma scanWord_eq {rounds : Nat} : ∀ {word : Nat} (bit : Nat), word < 2 ^ rounds →
    scanWord rounds word bit = word.bitIndices.map (bit + ·) := by
  induction rounds with
  | zero =>
    intro word bit h
    obtain rfl : word = 0 := by omega
    rfl
  | succ rounds ih =>
    intro word bit h
    have hhalf : word / 2 < 2 ^ rounds := by omega
    have hmove : (word / 2).bitIndices.map (bit + 1 + ·) =
        ((word / 2).bitIndices.map (· + 1)).map (bit + ·) := by
      rw [List.map_map]
      refine map_congr_left fun i _ => ?_
      show bit + 1 + i = bit + (i + 1)
      omega
    unfold scanWord
    rw [Nat.and_one_is_mod]
    split_ifs with hpos hodd
    · -- an odd word: clearing the bit and shifting is halving
      have hclear : clearBit word 0 >>> 1 = word / 2 := by
        refine Nat.eq_of_testBit_eq fun i => ?_
        have hne : ¬0 = 1 + i := by omega
        rw [Nat.testBit_shiftRight, clearBit, Nat.testBit_xor, Nat.testBit_and,
          Nat.testBit_two_pow, decide_eq_false hne, Nat.testBit_div_two, add_comm]
        simp
      have hword : word = 2 * (word / 2) + 1 := by omega
      rw [hclear, ih _ hhalf, hmove]
      conv_rhs => rw [hword, Nat.bitIndices_two_mul_add_one]
      rfl
    · have hword : word = 2 * (word / 2) := by omega
      rw [Nat.shiftRight_one, ih _ hhalf, hmove]
      conv_rhs => rw [hword, Nat.bitIndices_two_mul]
    · obtain rfl : word = 0 := by omega
      rfl

/-- The scan over the words visits the offsets taken, in increasing order. -/
lemma forEach_eq (r : AllocationBitmap S) : r.forEach = r.allocated.bitIndices := by
  have hword : ∀ p ∈ (Nat.digits (2 ^ wordBits) r.allocated).zipIdx,
      (scanWord wordBits p.1 0).map (p.2 * wordBits + ·) =
        p.1.bitIndices.map (p.2 * wordBits + ·) := by
    intro p hp
    have hlt : p.1 < 2 ^ wordBits :=
      Nat.digits_lt_base (by decide) (fst_mem_of_mem_zipIdx hp)
    rw [scanWord_eq 0 hlt]
    simp
  rw [forEach, flatMap_congr hword, flatMap_zipIdx, bitIndices_digits (by decide : 0 < wordBits)]
  simp

lemma mem_forEach :
    offset ∈ r.forEach ↔ offset ∈ r.offsets := by
  rw [forEach_eq, offsets, bits, mem_toFinset]

lemma nodup_forEach (r : AllocationBitmap S) : r.forEach.Nodup := by
  rw [forEach_eq]
  exact Nat.bitIndices_nodup

end AllocationBitmap

end Kubernetes.Registry
