import Kubernetes.Decimal
import Kubernetes.Registry.AllocationBitmap

/-! # The addresses of a service CIDR

`ipallocator.Range` hands out the addresses of a CIDR: offset `o` of its bitmap is the
address `base + o`, where `base` is the one after the network address. Addresses are in
their 16-byte form, so an IPv4 address is one of `::ffff:0:0/96`.

The range is to be a set of addresses. `Session` is a range with the snapshots taken of it
and, beside it, the set that the replies describe.

Results:

1. `contains_eq_some`: unless the CIDR is too large, the offsets of the range and the
   usable addresses are the same thing;
2. `Session.Inv`: the bits are the addresses of the set;
3. `range_correct_iff`: every operation answers as the set does, exactly in the CIDRs that
   are not too large.
-/

namespace Kubernetes.Registry

open BitSet AllocationBitmap Finset Option

/-! ## Addresses and networks -/

/-- `net.IP`, in 16-byte form. -/
abbrev IP := BitVec 128

/-- `To4() != nil`. -/
def isIPv4 (ip : IP) : Bool := ip.toNat / 2 ^ 32 == 0xffff

/-- The length of a mask for the address. -/
def addressBits (ip : IP) : Nat := if isIPv4 ip then 32 else 128

/-- `net.IPNet`, as `net.ParseCIDR` returns it: no bit is set after the first `ones`. -/
structure IPNet where
  ip : IP
  ones : Nat
  ones_le : ones ≤ addressBits ip
  masked : 2 ^ (addressBits ip - ones) ∣ ip.toNat
  deriving DecidableEq

variable (n : IPNet)

namespace IPNet

/-- `bits - ones` of the mask. -/
def hostBits : Nat := addressBits n.ip - n.ones

/-- `Contains`: an address of the same family with the same first bits. -/
def contains (ip : IP) : Bool :=
  isIPv4 ip == isIPv4 n.ip && ip.toNat / 2 ^ n.hostBits == n.ip.toNat / 2 ^ n.hostBits

def rangeSize : Int :=
  if addressBits n.ip = 32 ∧ n.hostBits ≥ 31 ∨ addressBits n.ip = 128 ∧ n.hostBits ≥ 127 then 0
  else if n.hostBits ≥ 63 then 2 ^ 63 - 1
  else 2 ^ n.hostBits

end IPNet

/-- `AddIPOffset`: the low 16 bytes of the sum. -/
def addIPOffset (base offset : Nat) : IP := BitVec.ofNat 128 (base + offset)

/-- `GetIndexedIP`: no address if the network is too small. -/
def getIndexedIP (index : Nat) : Option IP :=
  if n.contains (addIPOffset n.ip.toNat index) then some (addIPOffset n.ip.toNat index) else none

/-! ## The range -/

inductive RangeError where
  | notInRange (validRange : IPNet)
  | allocated
  | full
  | mismatchedNetwork
  /-- The bitmap refuses the snapshot. -/
  | restoring
  deriving DecidableEq

/-- The number of usable addresses, as `NewAllocatorCIDRRange` computes it. -/
def usableMax (cidr : IPNet) : Nat :=
  let max := cidr.rangeSize
  let max :=
    if isIPv4 cidr.ip then max - 1 -- without the broadcast address
    else if max > 65536 then 65536 else max
  (max - 1).toNat -- without the network address; at least 0

/-- `Range`. The text of a CIDR, which the bitmap has for its specifier, is written as the
CIDR itself. -/
structure Range where
  net : IPNet
  base : Nat
  max : Nat
  alloc : AllocationBitmap IPNet
  base_eq : base = net.ip.toNat + 1
  max_eq : max = usableMax net
  alloc_eq : alloc.config = (.randomScan, max, net)

def calculateIPOffset (base : Nat) (ip : IP) : Int := Decimal.int64 (ip.toNat - base)

namespace Range

def newCIDRRange (cidr : IPNet) : Range :=
  ⟨cidr, cidr.ip.toNat + 1, usableMax cidr, .empty .randomScan (usableMax cidr) cidr, rfl, rfl,
    rfl⟩

variable (r : Range)

/-- The range with another content of its bitmap. -/
def withAlloc (a : AllocationBitmap IPNet) (h : a.config = r.alloc.config) : Range :=
  { r with alloc := a, alloc_eq := h.trans r.alloc_eq }

variable (ip : IP)

/-- `contains`: the offset of an address of the range. -/
def contains : Option Nat :=
  if r.net.contains ip = false then none
  else
    let offset := calculateIPOffset r.base ip
    if offset < 0 ∨ offset ≥ r.max then none else some offset.toNat

def allocate : Range × Option RangeError :=
  match r.contains ip with
  | none => (r, some (.notInRange r.net))
  | some offset =>
    (r.withAlloc (r.alloc.allocate offset).1 (config_allocate _ _),
      if (r.alloc.allocate offset).2 then none else some .allocated)

def allocateNext (draw : Nat) : Range × Except RangeError IP :=
  (r.withAlloc (r.alloc.allocateNext draw).1 (config_allocateNext _ _),
    match (r.alloc.allocateNext draw).2 with
    | none => .error .full
    | some offset => .ok (addIPOffset r.base offset))

def release : Range :=
  match r.contains ip with
  | none => r
  | some offset =>
    r.withAlloc (r.alloc.release offset) (config_release _ _)

/-- `ForEach`: the addresses for which the function is called. `none` is the nil address,
which is what `GetIndexedIP` returns beside an error. -/
def forEach : List (Option IP) :=
  r.alloc.forEach.map fun offset => getIndexedIP r.net (offset + 1)

def has : Bool :=
  match r.contains ip with
  | none => false
  | some offset => r.alloc.has offset

def free : Int := r.alloc.free

def snapshot : IPNet × List UInt8 := r.alloc.snapshot

def restore (net : IPNet) (data : List UInt8) : Except RangeError Range :=
  if net ≠ r.net then .error .mismatchedNetwork
  else
    match h : r.alloc.restore net data with
    | none => .error .restoring
    | some a => .ok (r.withAlloc a (restore_eq_some h).2.1)

def newFromSnapshot (snap : IPNet × List UInt8) : Except RangeError Range :=
  (newCIDRRange snap.1).restore snap.1 snap.2

end Range

/-! ## Usable addresses -/

/-- The addresses that a range of the CIDR is for: those of the CIDR without the network
address, without the broadcast address of IPv4, and the first 65535 of IPv6 only. -/
structure Usable (n : IPNet) (ip : IP) : Prop where
  network : n.ip.toNat < ip.toNat
  within : ip.toNat < n.ip.toNat + 2 ^ n.hostBits
  broadcast : isIPv4 n.ip = true → ip.toNat ≠ n.ip.toNat + 2 ^ n.hostBits - 1
  limit : isIPv4 n.ip = false → ip.toNat - n.ip.toNat ≤ 65535

/-- The CIDR is not too large: its size is known to `RangeSize`, and the distance between
two of its addresses fits in 64 bits. -/
def Supported : Prop := n.hostBits ≤ if isIPv4 n.ip then 30 else 64

variable {n}

namespace IPNet

lemma hostBits_le (n : IPNet) : n.hostBits ≤ addressBits n.ip := Nat.sub_le _ _

lemma hostBits_le_128 (n : IPNet) : n.hostBits ≤ 128 := by
  have hle := n.hostBits_le
  unfold addressBits at hle
  split at hle <;> omega

lemma add_le (n : IPNet) : n.ip.toNat + 2 ^ n.hostBits ≤ 2 ^ 128 := by
  obtain ⟨k, hk⟩ := n.masked
  have hpow : 2 ^ 128 = 2 ^ n.hostBits * 2 ^ (128 - n.hostBits) := by
    rw [← Nat.pow_add, Nat.add_sub_cancel' n.hostBits_le_128]
  have hlt : n.ip.toNat < 2 ^ 128 := n.ip.isLt
  change n.ip.toNat = 2 ^ n.hostBits * k at hk
  rw [hpow, hk] at hlt
  rw [hpow, hk, ← Nat.mul_succ]
  exact Nat.mul_le_mul_left _ (Nat.lt_of_mul_lt_mul_left hlt)

lemma div_eq_iff {x : Nat} : x / 2 ^ n.hostBits = n.ip.toNat / 2 ^ n.hostBits ↔
    n.ip.toNat ≤ x ∧ x < n.ip.toNat + 2 ^ n.hostBits := by
  obtain ⟨k, hk⟩ := n.masked
  change n.ip.toNat = 2 ^ n.hostBits * k at hk
  have hpos : 0 < 2 ^ n.hostBits := Nat.two_pow_pos _
  rw [hk, Nat.mul_div_cancel_left _ hpos, Nat.div_eq_iff hpos]
  rw [Nat.mul_comm k]
  omega

/-- Addresses that agree above the host part, or above the low 32 bits, are of one
family. -/
lemma isIPv4_eq {m : Nat} (hm : m ≤ 32) {ip ip' : IP}
    (h : ip.toNat / 2 ^ m = ip'.toNat / 2 ^ m) : isIPv4 ip = isIPv4 ip' := by
  have hpow : 2 ^ 32 = 2 ^ m * 2 ^ (32 - m) := by
    rw [← Nat.pow_add, Nat.add_sub_cancel' hm]
  unfold isIPv4
  rw [hpow, ← Nat.div_div_eq_div_mul, ← Nat.div_div_eq_div_mul, h]

end IPNet

lemma IPNet.rangeSize_eq (h : Supported n) :
    n.rangeSize = if n.hostBits ≥ 63 then 2 ^ 63 - 1 else ((2 ^ n.hostBits : Nat) : Int) := by
  have hknown : ¬(addressBits n.ip = 32 ∧ n.hostBits ≥ 31 ∨
      addressBits n.ip = 128 ∧ n.hostBits ≥ 127) := by
    unfold Supported at h
    unfold addressBits
    split at h <;> simp_all <;> omega
  unfold rangeSize
  rw [if_neg hknown]
  rfl

lemma usableMax_eq (h : Supported n) :
    usableMax n =
      if isIPv4 n.ip then 2 ^ n.hostBits - 2 else min (2 ^ n.hostBits) 65536 - 1 := by
  unfold usableMax
  rw [IPNet.rangeSize_eq h]
  cases hfamily : isIPv4 n.ip with
  | true =>
    have hle : n.hostBits ≤ 30 := by simpa [Supported, hfamily] using h
    rw [if_neg (by omega : ¬n.hostBits ≥ 63)]
    simp only [if_true]
    omega
  | false =>
    simp only [Bool.false_eq_true, if_false]
    by_cases hlarge : n.hostBits ≥ 63
    · -- the size is cut at 65536 in any case
      have hpow : 65536 ≤ 2 ^ n.hostBits :=
        le_trans (by norm_num) (Nat.pow_le_pow_right Nat.two_pos hlarge)
      rw [if_pos hlarge, min_eq_right hpow]
      rfl
    · rw [if_neg hlarge]
      split <;> omega

variable {ip : IP}

lemma usable_iff (h : Supported n) :
    Usable n ip ↔ ∃ offset < usableMax n, ip.toNat = n.ip.toNat + 1 + offset := by
  rw [usableMax_eq h]
  have hpos : 0 < 2 ^ n.hostBits := Nat.two_pow_pos _
  constructor
  · rintro ⟨hnetwork, hwithin, hbroadcast, hlimit⟩
    refine ⟨ip.toNat - n.ip.toNat - 1, ?_, by omega⟩
    cases hfamily : isIPv4 n.ip with
    | true =>
      have hne := hbroadcast hfamily
      simp only [if_true]
      omega
    | false =>
      have hle := hlimit hfamily
      simp only [Bool.false_eq_true, if_false]
      omega
  · rintro ⟨offset, hoffset, hip⟩
    split_ifs at hoffset with hfamily
    · refine ⟨by omega, by omega, fun _ => by omega, fun hfalse => ?_⟩
      rw [hfamily] at hfalse
      cases hfalse
    · refine ⟨by omega, by omega, fun htrue => absurd htrue hfamily, fun _ => by omega⟩

lemma usableMax_lt (h : Supported n) : usableMax n < 2 ^ n.hostBits := by
  have hpos : 0 < 2 ^ n.hostBits := Nat.two_pow_pos _
  rw [usableMax_eq h]
  split <;> omega

lemma usableMax_small (h : Supported n) : usableMax n + 1 < 2 ^ 32 := by
  rw [usableMax_eq h]
  split_ifs with hfamily
  · have hle : n.hostBits ≤ 30 := by simpa [Supported, hfamily] using h
    have hpow : 2 ^ n.hostBits ≤ 2 ^ 30 := Nat.pow_le_pow_right Nat.two_pos hle
    omega
  · omega

variable {offset o : Nat}

lemma toNat_addIPOffset (h : Supported n) (hoffset : offset < usableMax n) :
    (addIPOffset (n.ip.toNat + 1) offset).toNat = n.ip.toNat + 1 + offset := by
  have hlt := usableMax_lt h
  have hle := n.add_le
  unfold addIPOffset
  rw [BitVec.toNat_ofNat]
  exact Nat.mod_eq_of_lt (by omega)

lemma contains_addIPOffset (h : Supported n) (hoffset : offset < usableMax n) :
    n.contains (addIPOffset (n.ip.toNat + 1) offset) = true := by
  have hnat := toNat_addIPOffset h hoffset
  have hlt := usableMax_lt h
  have hsmall := usableMax_small h
  have hdiv : (addIPOffset (n.ip.toNat + 1) offset).toNat / 2 ^ n.hostBits =
      n.ip.toNat / 2 ^ n.hostBits := IPNet.div_eq_iff.2 (by omega)
  unfold IPNet.contains
  rw [Bool.and_eq_true, beq_iff_eq, beq_iff_eq]
  refine ⟨?_, hdiv⟩
  rcases le_total n.hostBits 32 with hle | hle
  · exact IPNet.isIPv4_eq hle hdiv
  -- the network address has no bits in the low 32
  refine IPNet.isIPv4_eq (le_refl 32) ?_
  obtain ⟨k, hk⟩ : 2 ^ 32 ∣ n.ip.toNat := (Nat.pow_dvd_pow 2 hle).trans n.masked
  rw [hnat, hk]
  omega

/-! ## Offsets and addresses -/

variable {r : Range}

namespace Range

/-- An address is in the range at `offset` if and only if it is the address there. -/
theorem contains_eq_some (h : Supported r.net) :
    r.contains ip = some offset ↔
      offset < r.max ∧ ip = addIPOffset (r.net.ip.toNat + 1) offset := by
  rw [r.max_eq]
  have hnat := fun (ho : offset < usableMax r.net) => toNat_addIPOffset h ho
  have hsmall := usableMax_small h
  have hint : ∀ x : Int, Decimal.int64 x = (x + 2 ^ 63) % 2 ^ 64 - 2 ^ 63 := fun _ => rfl
  unfold contains calculateIPOffset
  dsimp only
  rw [r.base_eq, r.max_eq, hint]
  constructor
  · intro hsome
    split_ifs at hsome with hnet hrange
    have hdiv : ip.toNat / 2 ^ r.net.hostBits = r.net.ip.toNat / 2 ^ r.net.hostBits := by
      simp only [IPNet.contains, Bool.not_eq_false, Bool.and_eq_true, beq_iff_eq] at hnet
      exact hnet.2
    obtain ⟨hle, hlt⟩ := IPNet.div_eq_iff.1 hdiv
    have hpow : 2 ^ r.net.hostBits ≤ 2 ^ 64 := by
      refine Nat.pow_le_pow_right Nat.two_pos (le_trans h ?_)
      split <;> omega
    have hoffset := some.inj hsome
    have hlt' : offset < usableMax r.net := by omega
    refine ⟨hlt', BitVec.eq_of_toNat_eq ?_⟩
    rw [hnat hlt']
    omega
  · rintro ⟨hoffset, rfl⟩
    rw [if_neg (by rw [contains_addIPOffset h hoffset]; exact Bool.true_eq_false_eq_False),
      hnat hoffset]
    have hdiff : ((r.net.ip.toNat + 1 + offset : Nat) : Int) - ((r.net.ip.toNat + 1 : Nat) : Int) =
        offset := by omega
    have hmod : ((offset : Int) + 2 ^ 63) % 2 ^ 64 - 2 ^ 63 = offset := by omega
    rw [hdiff, hmod, if_neg (by omega), Int.toNat_natCast]

lemma contains_eq_none (h : Supported r.net) :
    r.contains ip = none ↔ ¬Usable r.net ip := by
  rw [usable_iff h, ← not_iff_not, not_not]
  constructor
  · intro hne
    obtain ⟨offset, hoffset⟩ := ne_none_iff_exists'.1 hne
    obtain ⟨hlt, rfl⟩ := (contains_eq_some h).1 hoffset
    rw [r.max_eq] at hlt
    exact ⟨offset, hlt, toNat_addIPOffset h hlt⟩
  · rintro ⟨offset, hlt, hip⟩
    have hsome : r.contains ip = some offset := by
      refine (contains_eq_some h).2 ⟨r.max_eq ▸ hlt, BitVec.eq_of_toNat_eq ?_⟩
      rw [hip, toNat_addIPOffset h hlt]
    rw [hsome]
    exact some_ne_none _

@[simp]
lemma alloc_withAlloc {a : AllocationBitmap IPNet} (h : a.config = r.alloc.config) :
    (r.withAlloc a h).alloc = a := rfl

lemma alloc_max (r : Range) : r.alloc.max = r.max := congrArg (·.2.1) r.alloc_eq

lemma alloc_rangeSpec (r : Range) : r.alloc.rangeSpec = r.net := congrArg (·.2.2) r.alloc_eq

/-- Snapshots can be restored in every range of the CIDR. -/
lemma restore_ok (r : Range) (data : List UInt8) :
    ∃ r', r.restore r.net data = .ok r' ∧ r'.net = r.net ∧
      r'.alloc.offsets = bits (ofBytes data) := by
  have hsome : (r.alloc.restore r.net data).isSome = true :=
    isSome_restore.2 r.alloc_rangeSpec
  obtain ⟨a, ha⟩ := isSome_iff_exists.1 hsome
  obtain ⟨-, hconfig, hoffs⟩ := restore_eq_some ha
  refine ⟨r.withAlloc a hconfig, ?_, rfl, hoffs⟩
  unfold restore
  rw [if_neg (not_not.2 rfl)]
  split
  · rename_i hnone
    rw [ha] at hnone
    cases hnone
  · rename_i a' ha'
    rw [ha] at ha'
    cases ha'
    rfl

end Range

/-! ## The set of addresses -/

def addresses (n : IPNet) (offsets : Finset Nat) : Finset IP :=
  offsets.image (addIPOffset (n.ip.toNat + 1))

lemma addIPOffset_inj (h : Supported n) {o' : Nat} (ho : o < usableMax n) (ho' : o' < usableMax n)
    (heq : addIPOffset (n.ip.toNat + 1) o = addIPOffset (n.ip.toNat + 1) o') : o = o' := by
  have hnat := congrArg BitVec.toNat heq
  rw [toNat_addIPOffset h ho, toNat_addIPOffset h ho'] at hnat
  omega

def InRange (n : IPNet) (offsets : Finset Nat) : Prop := ∀ o ∈ offsets, o < usableMax n

variable {offsets : Finset Nat}

lemma InRange.insert (hin : InRange n offsets) (ho : o < usableMax n) :
    InRange n (insert o offsets) := by
  intro o' ho'
  rcases mem_insert.1 ho' with rfl | hmem
  · exact ho
  · exact hin o' hmem

section

variable (h : Supported n) (hin : InRange n offsets)

include h hin

lemma mem_addresses (ho : o < usableMax n) :
    addIPOffset (n.ip.toNat + 1) o ∈ addresses n offsets ↔ o ∈ offsets := by
  unfold addresses
  rw [mem_image]
  constructor
  · rintro ⟨o', ho', heq⟩
    rw [← addIPOffset_inj h (hin o' ho') ho heq]
    exact ho'
  · intro hmem
    exact ⟨o, hmem, rfl⟩

lemma usable_of_mem_addresses (hip : ip ∈ addresses n offsets) : Usable n ip := by
  obtain ⟨o, ho, rfl⟩ := mem_image.1 hip
  exact (usable_iff h).2 ⟨o, hin o ho, toNat_addIPOffset h (hin o ho)⟩

lemma card_addresses : (addresses n offsets).card = offsets.card :=
  card_image_of_injOn fun _ ho _ ho' heq => addIPOffset_inj h (hin _ ho) (hin _ ho') heq

lemma addresses_erase (ho : o < usableMax n) :
    addresses n (offsets.erase o) =
      (addresses n offsets).erase (addIPOffset (n.ip.toNat + 1) o) := by
  ext ip
  rw [mem_erase]
  unfold addresses
  simp only [mem_image, mem_erase]
  constructor
  · rintro ⟨o', ⟨hne, ho'⟩, rfl⟩
    exact ⟨fun heq => hne (addIPOffset_inj h (hin o' ho') ho heq), o', ho', rfl⟩
  · rintro ⟨hne, o', ho', rfl⟩
    exact ⟨o', ⟨fun heq => hne (heq ▸ rfl), ho'⟩, rfl⟩

end

/-! ## Sessions -/

/-- A range, the set of addresses that the replies describe, and the snapshots taken, each
with the set of that moment. -/
structure Session where
  range : Range
  held : Finset IP
  snapshots : List ((IPNet × List UInt8) × Finset IP)

inductive RangeOp where
  | allocate (ip : IP)
  | allocateNext (draw : Nat)
  | release (ip : IP)
  | snapshot
  | restore (net : IPNet) (i : Nat)
  | newFromSnapshot (i : Nat)

namespace Session

def step (s : Session) : RangeOp → Option Session
  | .allocate ip =>
    match s.range.allocate ip with
    | (r, none) => some { s with range := r, held := insert ip s.held }
    | (r, some _) => some { s with range := r }
  | .allocateNext draw =>
    match s.range.allocateNext draw with
    | (r, .ok ip) => some { s with range := r, held := insert ip s.held }
    | (r, .error _) => some { s with range := r }
  | .release ip => some { s with range := s.range.release ip, held := s.held.erase ip }
  | .snapshot => some { s with snapshots := s.snapshots ++ [(s.range.snapshot, s.held)] }
  | .restore net i =>
    s.snapshots[i]?.map fun snap =>
      match s.range.restore net snap.1.2 with
      | .ok r => { s with range := r, held := snap.2 }
      | .error _ => s
  | .newFromSnapshot i =>
    s.snapshots[i]?.map fun snap =>
      match Range.newFromSnapshot snap.1 with
      | .ok r => { s with range := r, held := snap.2 }
      | .error _ => s

end Session

/-- The uses of a new range of the CIDR. -/
def sessions (n : IPNet) : Machine Session RangeOp where
  init := ⟨.newCIDRRange n, ∅, []⟩
  step := Session.step

/-- The range answers as the set of addresses does. -/
structure Correct (n : IPNet) (s : Session) : Prop where
  allocate : ∀ ip, (s.range.allocate ip).2 = none ↔ Usable n ip ∧ ip ∉ s.held
  next : ∀ draw ip, (s.range.allocateNext draw).2 = .ok ip → Usable n ip ∧ ip ∉ s.held
  next_error : ∀ draw err, (s.range.allocateNext draw).2 = .error err → err = .full
  full : ∀ draw, (s.range.allocateNext draw).2 = .error .full ↔ s.held.card = s.range.max
  usable : s.held.card = s.range.max ↔ ∀ ip, Usable n ip → ip ∈ s.held
  forEach : s.range.forEach.Nodup ∧ ∀ x, x ∈ s.range.forEach ↔ ∃ ip ∈ s.held, x = some ip
  paths : ∀ offset < s.range.max,
    getIndexedIP n (offset + 1) = some (addIPOffset s.range.base offset)
  free : s.range.free + s.held.card = s.range.max
  restore : ∀ r : Range, r.net = n → ∃ r', r.restore n s.range.snapshot.2 = .ok r' ∧
    ∀ ip, r'.has ip = true ↔ ip ∈ s.held
  newFromSnapshot : ∃ r', Range.newFromSnapshot s.range.snapshot = .ok r' ∧
    ∀ ip, r'.has ip = true ↔ ip ∈ s.held

/-! ## The bits are the addresses of the set -/

namespace Range

lemma has_iff (h : Supported r.net) (hin : InRange r.net r.alloc.offsets) :
    r.has ip = true ↔ ip ∈ addresses r.net r.alloc.offsets := by
  unfold has
  split
  · rename_i hnone
    have hunus := (contains_eq_none h).1 hnone
    constructor
    · intro hfalse
      cases hfalse
    · intro hip
      exact absurd (usable_of_mem_addresses h hin hip) hunus
  · rename_i offset hsome
    obtain ⟨hlt, rfl⟩ := (contains_eq_some h).1 hsome
    rw [mem_addresses h hin (r.max_eq ▸ hlt)]
    exact AllocationBitmap.has_iff

/-- `Allocate` of an address that is not in the range, of one that is taken and of one that
is free. -/
lemma allocate_cases (h : Supported r.net) (ip : IP) :
    (¬Usable r.net ip ∧ r.allocate ip = (r, some (.notInRange r.net))) ∨
      ∃ offset < usableMax r.net, ip = addIPOffset (r.net.ip.toNat + 1) offset ∧
        (offset ∈ r.alloc.offsets ∧ r.allocate ip = (r, some .allocated) ∨
          offset ∉ r.alloc.offsets ∧ ∃ r', r.allocate ip = (r', none) ∧ r'.net = r.net ∧
            r'.alloc.offsets = insert offset r.alloc.offsets) := by
  unfold allocate
  split
  · rename_i hnone
    exact .inl ⟨(contains_eq_none h).1 hnone, rfl⟩
  rename_i offset hsome
  obtain ⟨hlt, hip⟩ := (contains_eq_some h).1 hsome
  refine .inr ⟨offset, r.max_eq ▸ hlt, hip, ?_⟩
  by_cases hmem : offset ∈ r.alloc.offsets
  · refine .inl ⟨hmem, ?_⟩
    simp only [allocate_of_mem hmem]
    rfl
  · have hfree := testBit_eq_false hmem
    refine .inr ⟨hmem, r.withAlloc (r.alloc.mark offset hfree) rfl, ?_, rfl,
      offsets_mark _ _ hfree⟩
    simp only [allocate_of_notMem hmem]
    rfl

lemma allocateNext_cases (r : Range) (draw : Nat) :
    (r.max ≤ r.alloc.offsets.card ∧ r.allocateNext draw = (r, .error .full)) ∨
      (r.alloc.offsets.card < r.max ∧ ∃ offset < r.max, offset ∉ r.alloc.offsets ∧
        ∃ r', r.allocateNext draw = (r', .ok (addIPOffset (r.net.ip.toNat + 1) offset)) ∧
          r'.net = r.net ∧ r'.alloc.offsets = insert offset r.alloc.offsets) := by
  unfold allocateNext
  rw [← r.alloc_max, ← r.base_eq]
  rcases r.alloc.allocateNext_cases draw with ⟨hfull, hnext⟩ | ⟨hroom, next, hfree, hlt, hmem, hnext⟩
  · left
    refine ⟨hfull, ?_⟩
    simp only [hnext]
    rfl
  · right
    refine ⟨hroom, next, hlt, hmem, r.withAlloc (r.alloc.mark next hfree) rfl, ?_, rfl,
      offsets_mark _ _ hfree⟩
    simp only [hnext]

lemma release_cases (h : Supported r.net) (ip : IP) :
    (¬Usable r.net ip ∧ r.release ip = r) ∨
      ∃ offset < usableMax r.net, ip = addIPOffset (r.net.ip.toNat + 1) offset ∧
        (r.release ip).net = r.net ∧
        (r.release ip).alloc.offsets = r.alloc.offsets.erase offset := by
  unfold release
  split
  · rename_i hnone
    exact .inl ⟨(contains_eq_none h).1 hnone, rfl⟩
  · rename_i offset hsome
    obtain ⟨hlt, hip⟩ := (contains_eq_some h).1 hsome
    exact .inr ⟨offset, r.max_eq ▸ hlt, hip, rfl, offsets_release _ _⟩

end Range

namespace Session

/-- The bits of the range are the addresses of the set, and so are those of the
snapshots. -/
structure Inv (n : IPNet) (s : Session) : Prop where
  net : s.range.net = n
  inRange : InRange n s.range.alloc.offsets
  held : s.held = addresses n s.range.alloc.offsets
  snapshots : ∀ p ∈ s.snapshots, p.1.1 = n ∧ InRange n (bits (ofBytes p.1.2)) ∧
    p.2 = addresses n (bits (ofBytes p.1.2))

namespace Inv

variable {s s' : Session}

lemma init (n : IPNet) : Inv n (sessions n).init where
  net := rfl
  inRange := fun o ho => by
    have hnone : o ∈ (∅ : Finset Nat) := offsets_empty .randomScan _ n ▸ ho
    exact absurd hnone (notMem_empty o)
  held := by
    show ∅ = addresses n (empty .randomScan (usableMax n) n).offsets
    rw [offsets_empty]
    rfl
  snapshots := fun p hp => nomatch hp

lemma taken (h : Inv n s) (ho : o < usableMax n) (hnet : r.net = s.range.net)
    (hoffs : r.alloc.offsets = insert o s.range.alloc.offsets) :
    Inv n { s with range := r, held := insert (addIPOffset (n.ip.toNat + 1) o) s.held } where
  net := hnet.trans h.net
  inRange := by
    show InRange n r.alloc.offsets
    rw [hoffs]
    exact h.inRange.insert ho
  held := by
    show insert _ s.held = addresses n r.alloc.offsets
    rw [hoffs, h.held]
    exact (image_insert _ _ _).symm
  snapshots := h.snapshots

lemma restored (h : Inv n s) {p : (IPNet × List UInt8) × Finset IP} (hp : p ∈ s.snapshots)
    (hnet : r.net = n) (hoffs : r.alloc.offsets = bits (ofBytes p.1.2)) :
    Inv n { s with range := r, held := p.2 } where
  net := hnet
  inRange := hoffs ▸ (h.snapshots p hp).2.1
  held := hoffs ▸ (h.snapshots p hp).2.2
  snapshots := h.snapshots

lemma step (hn : Supported n) (h : Inv n s) {op : RangeOp} (hs : s.step op = some s') :
    Inv n s' := by
  have hnet : Supported s.range.net := h.net ▸ hn
  cases op with
  | allocate ip =>
    simp only [Session.step] at hs
    rcases Range.allocate_cases hnet ip with ⟨-, heq⟩ | ⟨o, ho, rfl, ⟨-, heq⟩ | ⟨-, r, heq, hr⟩⟩
    · rw [heq] at hs
      cases hs
      exact h
    · rw [heq] at hs
      cases hs
      exact h
    · rw [heq] at hs
      cases hs
      rw [h.net] at ho ⊢
      exact h.taken ho hr.1 hr.2
  | allocateNext draw =>
    simp only [Session.step] at hs
    rcases s.range.allocateNext_cases draw with ⟨-, heq⟩ | ⟨-, o, ho, -, r, heq, hr⟩
    · rw [heq] at hs
      cases hs
      exact h
    · rw [heq] at hs
      cases hs
      rw [s.range.max_eq, h.net] at ho
      rw [h.net]
      exact h.taken ho hr.1 hr.2
  | release ip =>
    cases hs
    rcases Range.release_cases hnet ip with ⟨hunus, heq⟩ | ⟨o, ho, rfl, hrnet, hr⟩
    · -- an address that is not usable is not in the set
      have hnot : ip ∉ s.held := by
        intro hip
        rw [h.held] at hip
        rw [h.net] at hunus
        exact hunus (usable_of_mem_addresses hn h.inRange hip)
      rw [heq, erase_eq_of_notMem hnot]
      exact h
    · rw [h.net] at ho
      refine ⟨hrnet.trans h.net, ?_, ?_, h.snapshots⟩
      · intro o' ho'
        rw [hr] at ho'
        exact h.inRange o' (mem_of_mem_erase ho')
      · rw [hr, addresses_erase hn h.inRange ho, ← h.held, h.net]
  | snapshot =>
    cases hs
    refine ⟨h.net, h.inRange, h.held, fun p hp => ?_⟩
    rcases List.mem_append.1 hp with hmem | hnew
    · exact h.snapshots p hmem
    rw [List.mem_singleton.1 hnew]
    have hbytes : bits (ofBytes (toBytes s.range.alloc.allocated)) = s.range.alloc.offsets := by
      rw [ofBytes_toBytes]
      rfl
    refine ⟨s.range.alloc_rangeSpec.trans h.net, ?_, ?_⟩
    · exact hbytes.symm ▸ h.inRange
    · exact hbytes.symm ▸ h.held
  | restore net i =>
    simp only [Session.step, map_eq_some_iff] at hs
    obtain ⟨p, hp, hs⟩ := hs
    have hmem := List.mem_of_getElem? hp
    by_cases hnet' : net = s.range.net
    · subst hnet'
      obtain ⟨r, heq, hr⟩ := s.range.restore_ok p.1.2
      rw [heq] at hs
      cases hs
      exact h.restored hmem (hr.1.trans h.net) hr.2
    · -- a snapshot of another network is refused
      rw [Range.restore, if_pos hnet'] at hs
      cases hs
      exact h
  | newFromSnapshot i =>
    simp only [Session.step, map_eq_some_iff] at hs
    obtain ⟨p, hp, hs⟩ := hs
    have hmem := List.mem_of_getElem? hp
    obtain ⟨r, heq, hr⟩ := (Range.newCIDRRange p.1.1).restore_ok p.1.2
    rw [Range.newFromSnapshot] at hs
    change (Range.newCIDRRange p.1.1).restore p.1.1 p.1.2 = .ok r at heq
    rw [heq] at hs
    cases hs
    exact h.restored hmem (hr.1.trans (h.snapshots p hmem).1) hr.2

lemma reach (hn : Supported n) {tr : List RangeOp} (h : (sessions n).Reach tr s) : Inv n s :=
  h.invariant (Inv n) (init n) fun _ _ _ hinv hs => hinv.step hn hs

/-- All of the offsets are taken if and only if there are `max` of them. -/
lemma card_eq_iff (hn : Supported n) (h : Inv n s) :
    s.held.card = s.range.max ↔ s.range.alloc.offsets = Finset.range (usableMax n) := by
  have hsub : s.range.alloc.offsets ⊆ Finset.range (usableMax n) := fun o ho =>
    mem_range.2 (h.inRange o ho)
  rw [h.held, card_addresses hn h.inRange, s.range.max_eq, h.net]
  constructor
  · intro hcard
    refine eq_of_subset_of_card_le hsub ?_
    rw [card_range, hcard]
  · intro heq
    rw [heq, card_range]

lemma card_le (h : Inv n s) : s.range.alloc.offsets.card ≤ s.range.max := by
  have hsub : s.range.alloc.offsets ⊆ Finset.range (usableMax n) := fun o ho =>
    mem_range.2 (h.inRange o ho)
  rw [s.range.max_eq, h.net, ← card_range (usableMax n)]
  exact card_le_card hsub

lemma allocate (hn : Supported n) (h : Inv n s) (ip : IP) :
    (s.range.allocate ip).2 = none ↔ Usable n ip ∧ ip ∉ s.held := by
  have hnet : Supported s.range.net := h.net ▸ hn
  have hcases := Range.allocate_cases hnet ip
  rw [h.net] at hcases
  rcases hcases with ⟨hunus, heq⟩ | ⟨o, ho, rfl, hcase⟩
  · rw [heq]
    constructor
    · intro hsome
      cases hsome
    · intro husable
      exact absurd husable.1 hunus
  have husable : Usable n (addIPOffset (n.ip.toNat + 1) o) :=
    (usable_iff hn).2 ⟨o, ho, toNat_addIPOffset hn ho⟩
  rw [h.held, mem_addresses hn h.inRange ho]
  rcases hcase with ⟨hmem, heq⟩ | ⟨hmem, r, heq, -⟩
  · rw [heq]
    constructor
    · intro hsome
      cases hsome
    · intro hfree
      exact absurd hmem hfree.2
  · rw [heq]
    exact ⟨fun _ => ⟨husable, hmem⟩, fun _ => rfl⟩

lemma usable (hn : Supported n) (h : Inv n s) :
    s.held.card = s.range.max ↔ ∀ ip, Usable n ip → ip ∈ s.held := by
  rw [h.card_eq_iff hn, h.held]
  constructor
  · intro heq ip husable
    obtain ⟨o, ho, hip⟩ := (usable_iff hn).1 husable
    obtain rfl : ip = addIPOffset (n.ip.toNat + 1) o :=
      BitVec.eq_of_toNat_eq (hip.trans (toNat_addIPOffset hn ho).symm)
    rw [mem_addresses hn h.inRange ho, heq]
    exact mem_range.2 ho
  · intro hall
    refine Finset.Subset.antisymm (fun o ho => mem_range.2 (h.inRange o ho)) ?_
    intro o ho
    have hlt := mem_range.1 ho
    rw [← mem_addresses hn h.inRange hlt]
    exact hall _ ((usable_iff hn).2 ⟨o, hlt, toNat_addIPOffset hn hlt⟩)

lemma has (hn : Supported n) (h : Inv n s) (hnet : r.net = n)
    (hoffs : r.alloc.offsets = bits (ofBytes s.range.snapshot.2)) (ip : IP) :
    r.has ip = true ↔ ip ∈ s.held := by
  have hsame : r.alloc.offsets = s.range.alloc.offsets := by
    rw [hoffs]
    exact congrArg bits (ofBytes_toBytes _)
  have hin : InRange r.net r.alloc.offsets := by
    rw [hnet, hsame]
    exact h.inRange
  rw [Range.has_iff (hnet ▸ hn) hin, hnet, hsame, h.held]

end Inv

end Session

/-- The two ways from an offset to its address. -/
lemma getIndexedIP_eq (hn : Supported n) (hoffset : offset < usableMax n) :
    getIndexedIP n (offset + 1) = some (addIPOffset (n.ip.toNat + 1) offset) := by
  have hsum : addIPOffset n.ip.toNat (offset + 1) = addIPOffset (n.ip.toNat + 1) offset := by
    unfold addIPOffset
    congr 1
    omega
  unfold getIndexedIP
  rw [hsum, if_pos (contains_addIPOffset hn hoffset)]

lemma Session.Inv.forEach {s : Session} (hn : Supported n) (h : Session.Inv n s) :
    s.range.forEach = s.range.alloc.forEach.map fun offset =>
      some (addIPOffset (n.ip.toNat + 1) offset) := by
  unfold Range.forEach
  refine List.map_congr_left fun offset hoffset => ?_
  rw [h.net, getIndexedIP_eq hn (h.inRange offset (mem_forEach.1 hoffset))]

lemma correct_of_inv {s : Session} (hn : Supported n) (h : Session.Inv n s) :
    Correct n s where
  allocate := h.allocate hn
  next := by
    intro draw ip hok
    rcases s.range.allocateNext_cases draw with ⟨-, heq⟩ | ⟨-, o, ho, hmem, r, heq, -⟩
    · rw [heq] at hok
      cases hok
    rw [heq] at hok
    cases hok
    rw [s.range.max_eq, h.net] at ho
    rw [h.net, h.held, mem_addresses hn h.inRange ho]
    exact ⟨(usable_iff hn).2 ⟨o, ho, toNat_addIPOffset hn ho⟩, hmem⟩
  next_error := by
    intro draw err herr
    rcases s.range.allocateNext_cases draw with ⟨-, heq⟩ | ⟨-, o, ho, hmem, r, heq, -⟩
    · rw [heq] at herr
      cases herr
      rfl
    · rw [heq] at herr
      cases herr
  full := by
    intro draw
    have hle := h.card_le
    rw [h.held, card_addresses hn h.inRange]
    rcases s.range.allocateNext_cases draw with ⟨hfull, heq⟩ | ⟨hroom, o, ho, hmem, r, heq, -⟩
    · rw [heq]
      exact ⟨fun _ => le_antisymm hle hfull, fun _ => rfl⟩
    rw [heq]
    constructor
    · intro herr
      cases herr
    · intro hcard
      omega
  usable := h.usable hn
  forEach := by
    rw [h.forEach hn]
    constructor
    · refine s.range.alloc.nodup_forEach.map_on fun o ho o' ho' heq => ?_
      have hin := fun {o : Nat} (ho : o ∈ s.range.alloc.forEach) =>
        h.inRange o (mem_forEach.1 ho)
      exact addIPOffset_inj hn (hin ho) (hin ho') (some.inj heq)
    intro x
    rw [h.held]
    simp only [List.mem_map, mem_forEach, addresses, mem_image]
    constructor
    · rintro ⟨o, ho, rfl⟩
      exact ⟨_, ⟨o, ho, rfl⟩, rfl⟩
    · rintro ⟨ip, ⟨o, ho, rfl⟩, rfl⟩
      exact ⟨o, ho, rfl⟩
  paths := by
    intro offset hoffset
    rw [s.range.max_eq, h.net] at hoffset
    rw [s.range.base_eq, h.net]
    exact getIndexedIP_eq hn hoffset
  free := by
    show (s.range.alloc.max : Int) - s.range.alloc.count + s.held.card = s.range.max
    rw [h.held, card_addresses hn h.inRange, s.range.alloc.count_eq_card, s.range.alloc_max]
    omega
  restore := by
    rintro r rfl
    obtain ⟨r', heq, hnet, hoffs⟩ := r.restore_ok s.range.snapshot.2
    exact ⟨r', heq, h.has hn hnet hoffs⟩
  newFromSnapshot := by
    obtain ⟨r', heq, hnet, hoffs⟩ :=
      (Range.newCIDRRange s.range.snapshot.1).restore_ok s.range.snapshot.2
    have hspec : s.range.snapshot.1 = n := s.range.alloc_rangeSpec.trans h.net
    exact ⟨r', heq, h.has hn (hnet.trans hspec) hoffs⟩

/-! ## CIDRs that are too large -/

lemma Range.contains_of_max_eq_zero (h : r.max = 0) (ip : IP) :
    r.contains ip = none := by
  unfold contains
  dsimp only
  rw [h]
  split_ifs with hnet hrange
  · rfl
  · rfl
  · omega

/-- `RangeSize` knows no size: no address is handed out. -/
lemma not_correct_of_unknown (h : n.hostBits ≥ if isIPv4 n.ip then 31 else 127) :
    ¬Correct n (sessions n).init := by
  intro hcorrect
  have hzero : usableMax n = 0 := by
    unfold usableMax IPNet.rangeSize addressBits
    cases hfamily : isIPv4 n.ip <;> simp [hfamily] at h ⊢ <;> simp [h]
  have hpow : 2 ^ 31 ≤ 2 ^ n.hostBits := by
    refine Nat.pow_le_pow_right Nat.two_pos (le_trans ?_ h)
    split <;> omega
  have hle := n.add_le
  -- the first address after that of the network
  have hnat : (addIPOffset n.ip.toNat 1).toNat = n.ip.toNat + 1 := by
    unfold addIPOffset
    rw [BitVec.toNat_ofNat]
    exact Nat.mod_eq_of_lt (by omega)
  have husable : Usable n (addIPOffset n.ip.toNat 1) :=
    ⟨by omega, by omega, fun _ => by omega, fun _ => by omega⟩
  have hsome := (hcorrect.allocate _).2 ⟨husable, notMem_empty _⟩
  have hcont := Range.contains_of_max_eq_zero (r := .newCIDRRange n) hzero
    (addIPOffset n.ip.toNat 1)
  change ((Range.newCIDRRange n).allocate _).2 = none at hsome
  rw [Range.allocate, hcont] at hsome
  cases hsome

lemma Range.contains_of_offset_eq_zero (hnet : r.net.contains ip = true)
    (hoffset : calculateIPOffset r.base ip = 0) (hmax : 0 < r.max) : r.contains ip = some 0 := by
  unfold contains
  rw [hoffset, hnet, if_neg Bool.true_eq_false_eq_False, if_neg (by omega)]
  rfl

lemma usableMax_pos (hfamily : isIPv4 n.ip = false) (hlow : 65 ≤ n.hostBits)
    (hhigh : n.hostBits < 127) : 0 < usableMax n := by
  have hsize : n.rangeSize = 2 ^ 63 - 1 := by
    unfold IPNet.rangeSize addressBits
    rw [if_neg (by simp [hfamily]; omega), if_pos (by omega)]
  unfold usableMax
  rw [hsize, hfamily]
  decide

/-- The offset of an address is that of the address `2 ^ 64` below it. -/
lemma calculateIPOffset_alias {base : Nat} (h : ip.toNat = base + 2 ^ 64) :
    calculateIPOffset base ip = 0 := by
  have hdiff : (ip.toNat : Int) - base = 2 ^ 64 := by
    rw [h]
    push_cast
    ring
  unfold calculateIPOffset
  rw [hdiff]
  decide

/-- The address `2 ^ 64` above the first one is taken for it. -/
lemma not_correct_of_alias (hfamily : isIPv4 n.ip = false) (hlow : 65 ≤ n.hostBits)
    (hhigh : n.hostBits < 127) : ¬Correct n (sessions n).init := by
  intro hcorrect
  have hpow : 2 ^ 65 ≤ 2 ^ n.hostBits := Nat.pow_le_pow_right Nat.two_pos hlow
  have hle := n.add_le
  obtain ⟨ip, hip⟩ : ∃ ip : IP, ip.toNat = n.ip.toNat + 1 + 2 ^ 64 := by
    refine ⟨BitVec.ofNat 128 (n.ip.toNat + 1 + 2 ^ 64), ?_⟩
    rw [BitVec.toNat_ofNat]
    exact Nat.mod_eq_of_lt (by omega)
  have hunus : ¬Usable n ip := by
    intro husable
    have hlimit := husable.limit hfamily
    omega
  have hcont : n.contains ip = true := by
    unfold IPNet.contains
    rw [Bool.and_eq_true, beq_iff_eq, beq_iff_eq]
    refine ⟨?_, IPNet.div_eq_iff.2 (by omega)⟩
    -- an address whose low 64 bits are 1 is not an IPv4 address
    obtain ⟨k, hk⟩ : 2 ^ 65 ∣ n.ip.toNat := (Nat.pow_dvd_pow 2 hlow).trans n.masked
    rw [hfamily, isIPv4, hip, hk, beq_eq_false_iff_ne]
    omega
  have hsome := Range.contains_of_offset_eq_zero (r := .newCIDRRange n) hcont
    (calculateIPOffset_alias hip) (usableMax_pos hfamily hlow hhigh)
  have hnone : ((sessions n).init.range.allocate ip).2 = none := by
    have hfree : 0 ∉ (Range.newCIDRRange n).alloc.offsets := by
      show 0 ∉ (empty .randomScan (usableMax n) n).offsets
      rw [offsets_empty]
      exact notMem_empty 0
    show ((Range.newCIDRRange n).allocate ip).2 = none
    simp only [Range.allocate, hsome, allocate_of_notMem hfree, if_true]
  exact hunus ((hcorrect.allocate ip).1 hnone).1

/-- Every operation answers as the set does, in every use of the range, exactly if the CIDR
is not too large. -/
theorem range_correct_iff (n : IPNet) :
    (∀ tr s, (sessions n).Reach tr s → Correct n s) ↔ Supported n := by
  constructor
  · intro h
    have hinit := h [] _ .init
    by_contra hn
    unfold Supported at hn
    by_cases hunknown : n.hostBits ≥ if isIPv4 n.ip then 31 else 127
    · exact not_correct_of_unknown hunknown hinit
    cases hfamily : isIPv4 n.ip with
    | true =>
      simp only [hfamily, if_true] at hn hunknown
      omega
    | false =>
      simp only [hfamily, Bool.false_eq_true, if_false] at hn hunknown
      exact not_correct_of_alias hfamily (by omega) (by omega) hinit
  · intro hn tr s hreach
    exact correct_of_inv hn (Session.Inv.reach hn hreach)

/-- 2001:db8:1::/48. -/
def slash48 : IPNet := ⟨0x20010db8000100000000000000000000, 48, by decide, by decide⟩

/-- 2001:db8:1:1::1 is given out for 2001:db8:1::1. -/
theorem range_slash48 :
    ((Range.newCIDRRange slash48).allocate 0x20010db8000100010000000000000001).2 = none ∧
      ((Range.newCIDRRange slash48).allocate 0x20010db8000100010000000000000001).1.forEach =
        [some 0x20010db8000100000000000000000001] ∧
      ¬Usable slash48 0x20010db8000100010000000000000001 ∧
      ¬∀ tr s, (sessions slash48).Reach tr s → Correct slash48 s := by
  refine ⟨by decide +kernel, by decide +kernel, ?_, ?_⟩
  · intro husable
    exact absurd (husable.limit (by decide +kernel)) (by decide +kernel)
  · intro h
    exact not_correct_of_alias (by decide +kernel) (by decide +kernel) (by decide +kernel)
      (h [] _ .init)

end Kubernetes.Registry
