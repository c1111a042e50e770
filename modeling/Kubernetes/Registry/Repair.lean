import Kubernetes.GoMap
import Kubernetes.Registry.IPRange

/-! # The repair loop of the cluster IP ranges

`Repair.runOnce` (pkg/registry/core/service/ipallocator/controller) rebuilds the stored
ranges from the services: an address that a listed service has is in use, and a stored
address that none has may have leaked. Such an address is kept for some runs, counted
down in a table of leaks that lives as long as the controller.

A run reads the stored ranges and the services as they are at that time, so both are
inputs of the run. A run that cannot read them ends before it looks at any address.

Results:

1. `has_of_uses`: an address of the range that a listed service has is in the rebuilt
   range;
2. `Observed.Inv`: the countdown of an address is that of the runs in which it was stored
   and unused, as long as those runs follow one another;
3. `repair_keeps_unused`: then no address is dropped before its time;
4. `repair_drops_fresh`: entries of the table outlive the leak, and an address that is
   allocated anew is dropped in the first run that sees it.
-/

namespace Kubernetes.Registry

open BitSet List Option Range

/-! ## Services and stored ranges -/

/-- `v1.IPFamily`. -/
inductive IPFamily where
  | ipv4Protocol
  | ipv6Protocol
  deriving DecidableEq

instance : Fintype IPFamily where
  elems := {.ipv4Protocol, .ipv6Protocol}
  complete := by
    intro family
    cases family <;> decide

def getFamilyByIP (ip : IP) : IPFamily :=
  if isIPv4 ip then .ipv4Protocol else .ipv6Protocol

/-- How many times a leak is detected before it is cleaned up. -/
def numRepairsBeforeLeakCleanup : Nat := 3

/-- The text of a cluster IP. -/
inductive IPText where
  /-- The empty text. -/
  | unset
  /-- `ClusterIPNone`. -/
  | headless
  /-- Another text, and what `net.ParseIP` makes of it. -/
  | text (parsed : Option IP)
  deriving DecidableEq

/-- `net.ParseIP`. -/
def IPText.parse : IPText → Option IP
  | .text parsed => parsed
  | .unset | .headless => none

/-- The fields of a service that the loop reads. -/
structure Service where
  clusterIP : IPText
  clusterIPs : List IPText
  deriving DecidableEq

def Service.isServiceIPSet (svc : Service) : Bool :=
  svc.clusterIP != .headless && svc.clusterIP != .unset

/-- The text of a stored range. -/
inductive RangeText where
  | unset
  | cidr (n : IPNet)
  /-- A text that `net.ParseCIDR` does not read. -/
  | invalid
  deriving DecidableEq

/-- A stored `RangeAllocation`. The length of a slice is an `int`. -/
structure StoredRange where
  range : RangeText
  data : List UInt8
  length_lt : data.length < 2 ^ 63

/-- The range that `NewFromSnapshot` makes of it. A range without text is the configured
one. -/
def StoredRange.load (snapshot : StoredRange) (network : IPNet) : Option Range :=
  match snapshot.range with
  | .unset => (Range.newFromSnapshot (network, snapshot.data)).toOption
  | .cidr n => (Range.newFromSnapshot (n, snapshot.data)).toOption
  | .invalid => none

/-! ## One family -/

/-- What a run has of one family. The table of leaks has the texts of addresses for keys,
and the text of the nil address too. -/
structure Books where
  rebuilt : Range
  stored : Range
  leaks : GoMap (Option IP) Nat

namespace Books

variable (b : Books)

/-- The body of the loop over the cluster IPs. The errors of `Allocate` are that the
address is a duplicate or out of range: both are reported. -/
def markInUse (ip : IP) : Books :=
  match b.rebuilt.allocate ip with
  | (rebuilt, none) =>
    { rebuilt
      stored := if b.stored.has ip then b.stored.release ip else b.stored
      leaks := b.leaks.erase (some ip) } -- it is used, so it can't be leaked
  | (_, some _) => b

/-- Pretend that an address is still in use. -/
def keep (ip : Option IP) (count : Nat) : Books :=
  { b with
    leaks := b.leaks.insert ip (count - 1)
    rebuilt :=
      match ip with
      | some ip => (b.rebuilt.allocate ip).1
      | none => b.rebuilt }

/-- The function that `checkLeaked` calls on an address. -/
def checkLeak (ip : Option IP) : Books :=
  match b.leaks.lookup ip with
  | none => b.keep ip (numRepairsBeforeLeakCleanup - 1)
  | some count => if count > 0 then b.keep ip count else b

def checkLeaked : Books := b.stored.forEach.foldl checkLeak b

end Books

/-! ## A run -/

inductive RunError where
  /-- A range cannot be read. -/
  | snapshot
  /-- A stored range is not a CIDR. -/
  | rebuild
  /-- The services cannot be listed. -/
  | services
  | conflict
  | persist
  deriving DecidableEq

/-- What a run meets: what `Get`, `List` and `CreateOrUpdate` return, and the order in which
the families are saved. -/
structure RunInput where
  get : IPFamily → Option StoredRange
  list : Option (List Service)
  order : List IPFamily
  save : IPFamily → Option RunError

/-- The tables of leaks. -/
abbrev Leaks := IPFamily → GoMap (Option IP) Nat

section

variable (networkByFamily : IPFamily → Option IPNet) (input : RunInput) (family : IPFamily)

/-- The stored range of a configured family. -/
def RunInput.stored : Option Range :=
  (networkByFamily family).bind fun network =>
    (input.get family).bind fun snapshot => snapshot.load network

variable (leaks : Leaks)

/-- Before the first service. -/
def openBooks (input : RunInput) (family : IPFamily) : Option Books :=
  (networkByFamily family).bind fun network =>
    (input.stored networkByFamily family).map fun stored =>
      ⟨.newCIDRRange network, stored, leaks family⟩

variable (books : IPFamily → Option Books)

/-- One cluster IP. Addresses of a family that is not configured are reported. -/
def checkIP (text : IPText) : IPFamily → Option Books :=
  match text.parse with
  | none => books -- cluster IP is corrupt
  | some ip => fun family =>
    if getFamilyByIP ip = family then (books family).map (·.markInUse ip) else books family

/-- One service. -/
def checkService (svc : Service) : IPFamily → Option Books :=
  if svc.isServiceIPSet then svc.clusterIPs.foldl checkIP books else books

/-- `runOnce` up to the saving of the rebuilt ranges. -/
def rebuild (input : RunInput) : Except RunError (IPFamily → Option Books) :=
  if ∃ family, (networkByFamily family).isSome ∧ (input.get family).isNone then .error .snapshot
  else if ∃ family, (networkByFamily family).isSome ∧
      (input.stored networkByFamily family).isNone then .error .rebuild
  else
    match input.list with
    | none => .error .services
    | some services =>
      let books := services.foldl checkService (openBooks networkByFamily leaks input)
      .ok fun family => (books family).map (·.checkLeaked)

/-- The rebuilt ranges that are saved, and the error that ends the saving. -/
def saveSnapShots (books : IPFamily → Option Books) (save : IPFamily → Option RunError) :
    List IPFamily → List (IPFamily × Range) × Option RunError
  | [] => ([], none)
  | family :: rest =>
    match books family with
    | none => saveSnapShots books save rest
    | some b =>
      match save family with
      | some err => ([], some err)
      | none =>
        let (saved, err) := saveSnapShots books save rest
        ((family, b.rebuilt) :: saved, err)

/-- What a run leaves: the tables of leaks, the ranges saved, and the error returned. -/
structure RunOutcome where
  leaks : Leaks
  saved : List (IPFamily × Range)
  err : Option RunError

def runOnce (input : RunInput) : RunOutcome :=
  match rebuild networkByFamily leaks input with
  | .error err => ⟨leaks, [], some err⟩
  | .ok books =>
    let (saved, err) := saveSnapShots books input.save input.order
    ⟨fun family => ((books family).map (·.leaks)).getD (leaks family), saved, err⟩

/-! ## Runs in sequence -/

/-- A listed service has the address. -/
def RunInput.uses (ip : IP) : Bool :=
  (input.list.getD []).any fun svc =>
    svc.isServiceIPSet && svc.clusterIPs.any fun text => text.parse == some ip

/-- The addresses of the stored range. -/
def RunInput.storedIPs : List IP :=
  ((input.stored networkByFamily family).map fun r => r.forEach.filterMap id).getD []

/-- The address is stored, and no listed service has it. -/
def StoredUnused (ip : IP) : Prop :=
  ip ∈ input.storedIPs networkByFamily family ∧ input.uses ip = false

instance (input : RunInput) (family : IPFamily) (ip : IP) :
    Decidable (StoredUnused networkByFamily input family ip) := instDecidableAnd

/-- The controller, and the runs that have looked at the addresses, the last one first. -/
structure Observed where
  leaks : Leaks
  past : List RunInput

/-- The runs of the controller. Retries after a conflict are runs too. -/
def repairs : Machine Observed RunInput where
  init := ⟨fun _ => ∅, []⟩
  step s input := some
    { leaks := (runOnce networkByFamily s.leaks input).leaks
      past :=
        match rebuild networkByFamily s.leaks input with
        | .error _ => s.past
        | .ok _ => input :: s.past }

/-- The configured range can have the address, and if the table of leaks has an entry for
it, then it was stored and unused in the last run. -/
def SteadyIP (s : Observed) (family : IPFamily) (network : IPNet) (ip : IP) : Prop :=
  ((Range.newCIDRRange network).contains ip).isSome = true ∧
    (((s.leaks family).lookup (some ip)).isSome = true →
      ∃ last ∈ s.past.head?, StoredUnused networkByFamily last family ip)

instance (s : Observed) (family : IPFamily) (network : IPNet) (ip : IP) :
    Decidable (SteadyIP networkByFamily s family network ip) := instDecidableAnd

/-- Every address that is stored and unused is one that the configured range can have, and
if the table of leaks has an entry for it, then it was stored and unused in the run before
as well. -/
def Steady (s : Observed) (input : RunInput) : Prop :=
  ∀ family, ∀ network ∈ networkByFamily family,
    ∀ ip ∈ input.storedIPs networkByFamily family, input.uses ip = false →
      SteadyIP networkByFamily s family network ip

-- the stored addresses are tested, not all addresses
instance (s : Observed) (input : RunInput) : Decidable (Steady networkByFamily s input) :=
  decidable_of_iff
    (∀ family, ∀ network ∈ networkByFamily family,
      ((input.storedIPs networkByFamily family).all fun ip =>
        decide (input.uses ip = false → SteadyIP networkByFamily s family network ip)) = true)
    (by simp only [Steady, List.all_eq_true, decide_eq_true_eq])

/-- Stored and unused in each of the last `k` runs. -/
def UnusedFor (k : Nat) (family : IPFamily) (ip : IP) (past : List RunInput) : Prop :=
  k ≤ past.length ∧ ∀ input ∈ past.take k, StoredUnused networkByFamily input family ip

instance (k : Nat) (family : IPFamily) (ip : IP) (past : List RunInput) :
    Decidable (UnusedFor networkByFamily k family ip past) := instDecidableAnd

end

/-! ## Ranges of any size -/

variable {ip : IP}

namespace Range

variable {r r' : Range}

lemma contains_congr (h : r.net = r'.net) (ip : IP) : r.contains ip = r'.contains ip := by
  unfold contains
  rw [r.base_eq, r'.base_eq, r.max_eq, r'.max_eq, h]

open AllocationBitmap

lemma has_iff_mem :
    r.has ip = true ↔ ∃ o, r.contains ip = some o ∧ o ∈ r.alloc.offsets := by
  unfold has
  cases hip : r.contains ip with
  | none => simp
  | some o =>
    simp only [Option.some.injEq, exists_eq_left']
    exact AllocationBitmap.has_iff

lemma offsets_allocate (r : Range) (ip : IP) :
    (r.allocate ip).1.alloc.offsets =
      match r.contains ip with
      | none => r.alloc.offsets
      | some o => insert o r.alloc.offsets := by
  unfold allocate
  cases r.contains ip with
  | none => rfl
  | some o =>
    by_cases hmem : o ∈ r.alloc.offsets
    · simp only [alloc_withAlloc, allocate_of_mem hmem,
        Finset.insert_eq_of_mem hmem]
    · simp only [alloc_withAlloc, allocate_of_notMem hmem,
        offsets_mark]

@[simp]
lemma net_allocate (r : Range) (ip : IP) : (r.allocate ip).1.net = r.net := by
  unfold allocate
  split <;> rfl

variable {ip' : IP}

lemma has_allocate (h : r.has ip = true) : (r.allocate ip').1.has ip = true := by
  obtain ⟨o, ho, hmem⟩ := has_iff_mem.1 h
  refine has_iff_mem.2 ⟨o, ?_, ?_⟩
  · rw [contains_congr (net_allocate r ip'), ho]
  rw [offsets_allocate]
  split
  · exact hmem
  · exact Finset.mem_insert_of_mem hmem

lemma has_allocate_self (h : (r.contains ip).isSome = true) :
    (r.allocate ip).1.has ip = true := by
  obtain ⟨o, ho⟩ := isSome_iff_exists.1 h
  refine has_iff_mem.2 ⟨o, ?_, ?_⟩
  · rw [contains_congr (net_allocate r ip), ho]
  · rw [offsets_allocate, ho]
    exact Finset.mem_insert_self o _

@[simp]
lemma net_release (r : Range) (ip : IP) : (r.release ip).net = r.net := by
  unfold release
  split <;> rfl

lemma offsets_release (r : Range) (ip : IP) :
    (r.release ip).alloc.offsets =
      match r.contains ip with
      | none => r.alloc.offsets
      | some o => r.alloc.offsets.erase o := by
  unfold release
  cases r.contains ip with
  | none => rfl
  | some o => exact AllocationBitmap.offsets_release _ _

lemma mem_forEach {x : Option IP} :
    x ∈ r.forEach ↔ ∃ o ∈ r.alloc.offsets, getIndexedIP r.net (o + 1) = x := by
  unfold forEach
  rw [List.mem_map]
  simp only [AllocationBitmap.mem_forEach]

variable {o : Nat}

lemma calculateIPOffset_of_contains (h : r.contains ip = some o) :
    calculateIPOffset (r.net.ip.toNat + 1) ip = o := by
  unfold contains at h
  dsimp only at h
  rw [r.base_eq] at h
  split_ifs at h with hnet hrange
  have ho := Option.some.inj h
  omega

lemma calculateIPOffset_mod {base : Nat} (h : ip.toNat % 2 ^ 64 = ip'.toNat % 2 ^ 64) :
    calculateIPOffset base ip = calculateIPOffset base ip' := by
  have hint : ∀ x : Int, Decimal.int64 x = (x + 2 ^ 63) % 2 ^ 64 - 2 ^ 63 := fun _ => rfl
  unfold calculateIPOffset
  rw [hint, hint]
  omega

/-- Two addresses of the range with the same low 64 bits are at one offset. -/
lemma contains_alias (hip : (r.contains ip).isSome = true) (hip' : r.contains ip' = some o)
    (hmod : ip.toNat % 2 ^ 64 = ip'.toNat % 2 ^ 64) :
    r.contains ip = some o := by
  obtain ⟨o', ho'⟩ := isSome_iff_exists.1 hip
  have hoffset := calculateIPOffset_of_contains ho'
  have hoffset' := calculateIPOffset_of_contains hip'
  rw [calculateIPOffset_mod hmod] at hoffset
  rw [ho']
  congr 1
  omega

lemma contains_mod (h : r.contains ip = some o) :
    ip.toNat % 2 ^ 64 = (r.net.ip.toNat + 1 + o) % 2 ^ 64 := by
  have hint : ∀ x : Int, Decimal.int64 x = (x + 2 ^ 63) % 2 ^ 64 - 2 ^ 63 := fun _ => rfl
  have hoffset := calculateIPOffset_of_contains h
  unfold calculateIPOffset at hoffset
  rw [hint] at hoffset
  omega

/-- `GetIndexedIP` gives an address of the offset. -/
lemma getIndexedIP_mod {n : IPNet} {index : Nat} (h : getIndexedIP n index = some ip) :
    ip.toNat = (n.ip.toNat + index) % 2 ^ 128 := by
  unfold getIndexedIP at h
  split at h
  · rw [← Option.some.inj h]
    exact BitVec.toNat_ofNat _ _
  · cases h

end Range

/-! ## The loop over the services -/

namespace Books

variable {b b' b'' : Books}

lemma markInUse_eq (b : Books) (ip : IP) :
    b.markInUse ip =
      if (b.rebuilt.allocate ip).2 = none then
        ⟨(b.rebuilt.allocate ip).1, if b.stored.has ip then b.stored.release ip else b.stored,
          b.leaks.erase (some ip)⟩
      else b := by
  unfold markInUse
  obtain ⟨rebuilt, err⟩ := b.rebuilt.allocate ip
  cases err with
  | none => rfl
  | some err => rfl

/-- What cluster IPs in use make of the books: addresses move from the stored range to the
rebuilt one, and entries of the table are removed. -/
structure Grown (b b' : Books) : Prop where
  net : b'.rebuilt.net = b.rebuilt.net
  storedNet : b'.stored.net = b.stored.net
  rebuilt : ∀ ip, b.rebuilt.has ip = true → b'.rebuilt.has ip = true
  stored : b'.stored.alloc.offsets ⊆ b.stored.alloc.offsets
  kept : ∀ ip, (b.rebuilt.contains ip).isSome = true → some ip ∈ b.stored.forEach →
    some ip ∈ b'.stored.forEach ∨ b'.rebuilt.has ip = true
  leaks : ∀ x c, b'.leaks.lookup x = some c → b.leaks.lookup x = some c

namespace Grown

lemma refl (b : Books) : Grown b b :=
  ⟨rfl, rfl, fun _ h => h, fun _ h => h, fun _ _ h => .inl h, fun _ _ h => h⟩

lemma trans (h : Grown b b') (h' : Grown b' b'') : Grown b b'' where
  net := h'.net.trans h.net
  storedNet := h'.storedNet.trans h.storedNet
  rebuilt := fun ip hip => h'.rebuilt ip (h.rebuilt ip hip)
  stored := h'.stored.trans h.stored
  kept := by
    intro ip hcont hip
    rcases h.kept ip hcont hip with hstored | hrebuilt
    · rw [← contains_congr h.net] at hcont
      exact h'.kept ip hcont hstored
    · exact .inr (h'.rebuilt ip hrebuilt)
  leaks := fun x c hc => h.leaks x c (h'.leaks x c hc)

end Grown

/-- A stored address goes with a cluster IP only if the code takes the one for the
other, and then it is in the rebuilt range. -/
lemma kept_release {ip ip' : IP} (hok : (b.rebuilt.allocate ip).2 = none)
    (hcont : (b.rebuilt.contains ip').isSome = true) (hip' : some ip' ∈ b.stored.forEach) :
    some ip' ∈ (b.stored.release ip).forEach ∨ (b.rebuilt.allocate ip).1.has ip' = true := by
  obtain ⟨o, ho, hindexed⟩ := mem_forEach.1 hip'
  by_cases hsame : b.stored.contains ip = some o
  · right
    have hmod : ip'.toNat % 2 ^ 64 = ip.toNat % 2 ^ 64 := by
      rw [getIndexedIP_mod hindexed, contains_mod hsame]
      omega
    cases hrebuilt : b.rebuilt.contains ip with
    | none =>
      rw [allocate, hrebuilt] at hok
      cases hok
    | some o' =>
      refine has_iff_mem.2 ⟨o', ?_, ?_⟩
      · rw [contains_congr (net_allocate b.rebuilt ip)]
        exact contains_alias hcont hrebuilt hmod
      · rw [offsets_allocate, hrebuilt]
        exact Finset.mem_insert_self o' _
  · left
    refine mem_forEach.2 ⟨o, ?_, ?_⟩
    · rw [offsets_release]
      split
      · exact ho
      · rename_i o' ho'
        exact Finset.mem_erase.2 ⟨fun heq => hsame (heq ▸ ho'), ho⟩
    · rw [net_release]
      exact hindexed

lemma grown_markInUse (b : Books) (ip : IP) : Grown b (b.markInUse ip) := by
  rw [markInUse_eq]
  split
  · rename_i hok
    constructor
    · exact net_allocate _ _
    · split
      · exact net_release _ _
      · rfl
    · exact fun _ hip => has_allocate hip
    · split
      · rw [offsets_release]
        split
        · exact Finset.Subset.refl _
        · exact Finset.erase_subset _ _
      · exact Finset.Subset.refl _
    · intro ip' hcont hip'
      split
      · exact kept_release hok hcont hip'
      · exact .inl hip'
    · intro x c hc
      rw [GoMap.lookup_erase_if] at hc
      split at hc
      · cases hc
      · exact hc
  · exact .refl b

lemma has_markInUse (h : (b.rebuilt.contains ip).isSome = true) :
    (b.markInUse ip).rebuilt.has ip = true := by
  have hhas := has_allocate_self h
  rw [markInUse_eq]
  split
  · exact hhas
  -- a duplicate: it was there before
  rename_i herr
  obtain ⟨o, ho⟩ := isSome_iff_exists.1 h
  refine has_iff_mem.2 ⟨o, ho, ?_⟩
  by_contra hmem
  refine herr ?_
  simp only [allocate, ho, AllocationBitmap.allocate_of_notMem hmem, if_true]

end Books

/-- The books of every family after some cluster IPs. -/
def Grown (books books' : IPFamily → Option Books) : Prop :=
  ∀ family b, books family = some b → ∃ b', books' family = some b' ∧ b.Grown b'

namespace Grown

variable {books books' books'' : IPFamily → Option Books}

lemma refl (books : IPFamily → Option Books) : Grown books books :=
  fun _ b hb => ⟨b, hb, .refl b⟩

lemma trans (h : Grown books books') (h' : Grown books' books'') : Grown books books'' := by
  intro family b hb
  obtain ⟨b', hb', hgrown⟩ := h family b hb
  obtain ⟨b'', hb'', hgrown'⟩ := h' family b' hb'
  exact ⟨b'', hb'', hgrown.trans hgrown'⟩

lemma foldl {E : Type} {f : (IPFamily → Option Books) → E → IPFamily → Option Books}
    (hf : ∀ books e, Grown books (f books e)) (l : List E) (books : IPFamily → Option Books) :
    Grown books (l.foldl f books) :=
  List.foldlRecOn l f (refl books) fun _ h e _ => h.trans (hf _ e)

lemma checkIP (books : IPFamily → Option Books) (text : IPText) :
    Grown books (checkIP books text) := by
  unfold Registry.checkIP
  split
  · exact refl books
  rename_i ip _
  intro family b hb
  dsimp only
  split
  · exact ⟨b.markInUse ip, by rw [hb]; rfl, b.grown_markInUse ip⟩
  · exact ⟨b, hb, .refl b⟩

lemma checkService (books : IPFamily → Option Books) (svc : Service) :
    Grown books (checkService books svc) := by
  unfold Registry.checkService
  split
  · exact foldl checkIP _ _
  · exact refl books

end Grown

/-- The rebuilt range of the family has the address. -/
def Rebuilt (family : IPFamily) (ip : IP) (books : IPFamily → Option Books) : Prop :=
  ∃ b, books family = some b ∧ b.rebuilt.has ip = true

variable {b : Books} {family : IPFamily}

namespace Grown

variable {books books' : IPFamily → Option Books}

lemma rebuilt (h : Grown books books') (hip : Rebuilt family ip books) :
    Rebuilt family ip books' := by
  obtain ⟨b, hb, hhas⟩ := hip
  obtain ⟨b', hb', hgrown⟩ := h family b hb
  exact ⟨b', hb', hgrown.rebuilt ip hhas⟩

/-- One step of a loop that has the address rebuilt is enough. -/
lemma rebuilt_foldl {E : Type} {f : (IPFamily → Option Books) → E → IPFamily → Option Books}
    (hf : ∀ books e, Grown books (f books e)) {l : List E} {e : E} (he : e ∈ l)
    (hstep : ∀ books', Grown books books' → Rebuilt family ip (f books' e)) :
    Rebuilt family ip (l.foldl f books) := by
  obtain ⟨before, after, rfl⟩ := append_of_mem he
  rw [foldl_append, foldl_cons]
  exact (foldl hf after _).rebuilt (hstep _ (foldl hf before books))

lemma contains (h : Grown books books') (hb : books family = some b)
    (hip : (b.rebuilt.contains ip).isSome = true) :
    ∃ b', books' family = some b' ∧ (b'.rebuilt.contains ip).isSome = true := by
  obtain ⟨b', hb', hgrown⟩ := h family b hb
  exact ⟨b', hb', contains_congr hgrown.net ip ▸ hip⟩

end Grown

open Books

/-- An address of the range that a listed service has is rebuilt. -/
lemma rebuilt_of_service {books : IPFamily → Option Books}
    {services : List Service} {svc : Service} {text : IPText}
    (hb : books (getFamilyByIP ip) = some b) (hip : (b.rebuilt.contains ip).isSome = true)
    (hsvc : svc ∈ services) (hset : svc.isServiceIPSet = true) (htext : text ∈ svc.clusterIPs)
    (hparse : text.parse = some ip) :
    Rebuilt (getFamilyByIP ip) ip (services.foldl checkService books) := by
  refine Grown.rebuilt_foldl Grown.checkService hsvc fun books1 h1 => ?_
  rw [checkService, if_pos hset]
  refine Grown.rebuilt_foldl Grown.checkIP htext fun books2 h2 => ?_
  obtain ⟨b2, hb2, hip2⟩ := (h1.trans h2).contains hb hip
  refine ⟨b2.markInUse ip, ?_, has_markInUse hip2⟩
  simp only [checkIP, hparse, if_true, hb2, map_some]

/-! ## The leak check -/

namespace Books

/-- The next value of a countdown. -/
def countdown : Option Nat → Nat
  | none => numRepairsBeforeLeakCleanup - 2
  | some count => count - 1

lemma lookup_checkLeak (b : Books) (x y : Option IP) :
    (b.checkLeak x).leaks.lookup y =
      if y = x then some (countdown (b.leaks.lookup x)) else b.leaks.lookup y := by
  unfold checkLeak
  cases hx : b.leaks.lookup x with
  | none => exact GoMap.lookup_insert_if _ _ _ _
  | some count =>
    by_cases hcount : count > 0
    · simp only [if_pos hcount]
      exact GoMap.lookup_insert_if _ _ _ _
    simp only [if_neg hcount]
    split_ifs with heq
    · rw [heq, hx, countdown]
      congr 1
      omega
    · rfl

lemma net_checkLeak (b : Books) (x : Option IP) : (b.checkLeak x).rebuilt.net = b.rebuilt.net := by
  have hkeep : ∀ count, (b.keep x count).rebuilt.net = b.rebuilt.net := by
    intro count
    cases x with
    | none => rfl
    | some ip => exact net_allocate _ _
  unfold checkLeak
  split
  · exact hkeep _
  · split
    · exact hkeep _
    · rfl

lemma has_checkLeak (h : b.rebuilt.has ip = true) (x : Option IP) :
    (b.checkLeak x).rebuilt.has ip = true := by
  have hkeep : ∀ count, (b.keep x count).rebuilt.has ip = true := by
    intro count
    cases x with
    | none => exact h
    | some ip' => exact has_allocate h
  unfold checkLeak
  split
  · exact hkeep _
  · split
    · exact hkeep _
    · exact h

/-- An address whose countdown has not ended is kept. -/
lemma has_checkLeak_self (hcount : b.leaks.lookup (some ip) ≠ some 0)
    (hip : (b.rebuilt.contains ip).isSome = true) :
    (b.checkLeak (some ip)).rebuilt.has ip = true := by
  have hkeep : ∀ count, (b.keep (some ip) count).rebuilt.has ip = true := fun _ =>
    has_allocate_self hip
  unfold checkLeak
  split
  · exact hkeep _
  · rename_i count hlookup
    rw [if_pos (Nat.pos_of_ne_zero fun hzero => hcount (hzero ▸ hlookup))]
    exact hkeep _

lemma has_foldl (l : List (Option IP)) (h : b.rebuilt.has ip = true) :
    (l.foldl checkLeak b).rebuilt.has ip = true := by
  induction l generalizing b with
  | nil => exact h
  | cons x l ih => exact ih (has_checkLeak h x)

lemma lookup_foldl_of_notMem {x : Option IP} {l : List (Option IP)} (h : x ∉ l) :
    (l.foldl checkLeak b).leaks.lookup x = b.leaks.lookup x := by
  induction l generalizing b with
  | nil => rfl
  | cons y l ih =>
    rw [foldl_cons, ih (not_mem_of_not_mem_cons h), lookup_checkLeak, if_neg (ne_of_not_mem_cons h)]

/-- The leak check of an address that is met once. -/
lemma foldl_checkLeak {l : List (Option IP)} (hmem : some ip ∈ l)
    (hnodup : (l.filterMap id).Nodup) :
    (l.foldl checkLeak b).leaks.lookup (some ip) =
        some (countdown (b.leaks.lookup (some ip))) ∧
      (b.leaks.lookup (some ip) ≠ some 0 → (b.rebuilt.contains ip).isSome = true →
        (l.foldl checkLeak b).rebuilt.has ip = true) := by
  induction l generalizing b with
  | nil => cases hmem
  | cons x l ih =>
    rw [foldl_cons]
    by_cases hx : x = some ip
    · -- the rest of the list does not meet it again
      subst hx
      have hrest : some ip ∉ l := by
        intro hagain
        have hcons : (some ip :: l).filterMap id = ip :: l.filterMap id := rfl
        rw [hcons, nodup_cons] at hnodup
        exact hnodup.1 (List.mem_filterMap.2 ⟨some ip, hagain, rfl⟩)
      constructor
      · rw [lookup_foldl_of_notMem hrest, lookup_checkLeak, if_pos rfl]
      · intro hcount hip
        exact has_foldl l (has_checkLeak_self hcount hip)
    · have hmem' : some ip ∈ l := (List.mem_cons.1 hmem).resolve_left (Ne.symm hx)
      have hnodup' : (l.filterMap id).Nodup :=
        hnodup.sublist ((sublist_cons_self x l).filterMap id)
      have hlookup : (b.checkLeak x).leaks.lookup (some ip) = b.leaks.lookup (some ip) := by
        rw [lookup_checkLeak, if_neg (Ne.symm hx)]
      obtain ⟨hcountdown, hkept⟩ := ih (b := b.checkLeak x) hmem' hnodup'
      rw [hlookup] at hcountdown hkept
      refine ⟨hcountdown, fun hcount hip => hkept hcount ?_⟩
      rwa [contains_congr (net_checkLeak b x)]

end Books

/-! ## A run as a whole -/

section

variable {networkByFamily : IPFamily → Option IPNet} {leaks : Leaks} {input : RunInput}
  {books : IPFamily → Option Books} {network : IPNet}

/-- The offsets of a stored range are small: its data is a slice. -/
lemma StoredRange.offsets_lt {snapshot : StoredRange} {r : Range}
    (h : snapshot.load network = some r) : ∀ o ∈ r.alloc.offsets, o < 2 ^ 66 := by
  have hnew : ∀ n, (newFromSnapshot (n, snapshot.data)).toOption = some r →
      ∀ o ∈ r.alloc.offsets, o < 2 ^ 66 := by
    intro n hn o ho
    obtain ⟨r', hr', -, hoffs⟩ := (newCIDRRange n).restore_ok snapshot.data
    change newFromSnapshot (n, snapshot.data) = .ok r' at hr'
    rw [hr'] at hn
    cases hn
    rw [hoffs] at ho
    have hlt := lt_of_mem_bits_ofBytes ho
    have hlength := snapshot.length_lt
    omega
  unfold load at h
  split at h
  · exact hnew _ h
  · exact hnew _ h
  · cases h

/-- So it has no address twice. -/
lemma Range.nodup_forEach {r : Range} (h : ∀ o ∈ r.alloc.offsets, o < 2 ^ 66) :
    (r.forEach.filterMap id).Nodup := by
  unfold forEach
  rw [filterMap_map, List.Nodup, pairwise_filterMap]
  refine r.alloc.nodup_forEach.imp_of_mem fun ho ho' hne ip hip ip' hip' heq => hne ?_
  have hlt := h _ (AllocationBitmap.mem_forEach.1 ho)
  have hlt' := h _ (AllocationBitmap.mem_forEach.1 ho')
  have hnat := getIndexedIP_mod (n := r.net) hip
  have hnat' := getIndexedIP_mod (n := r.net) hip'
  rw [heq] at hnat
  omega

lemma openBooks_eq (hnet : networkByFamily family = some network) {stored : Range}
    (hstored : input.stored networkByFamily family = some stored) :
    openBooks networkByFamily leaks input family =
      some ⟨.newCIDRRange network, stored, leaks family⟩ := by
  simp only [openBooks, hnet, hstored, bind_some, map_some]

lemma rebuild_ok (h : rebuild networkByFamily leaks input = .ok books)
    (hnet : networkByFamily family = some network) :
    ∃ stored services b, input.stored networkByFamily family = some stored ∧
      input.list = some services ∧
      services.foldl checkService (openBooks networkByFamily leaks input) family = some b ∧
      Books.Grown ⟨.newCIDRRange network, stored, leaks family⟩ b ∧
      books family = some b.checkLeaked := by
  unfold rebuild at h
  split_ifs at h with hget hstored
  split at h
  · cases h
  rename_i services hlist
  cases h
  push Not at hstored
  have hsome := hstored family (isSome_iff_exists.2 ⟨network, hnet⟩)
  obtain ⟨stored, hstored⟩ := ne_none_iff_exists'.1
    (fun hnone => hsome (isNone_iff_eq_none.2 hnone))
  obtain ⟨b, hb, hgrown⟩ := Grown.foldl Grown.checkService services _ family _
    (openBooks_eq hnet hstored)
  exact ⟨stored, services, b, hstored, hlist, hb, hgrown, by simp only [hb, map_some]⟩

lemma nodup_stored {stored : Range} (h : input.stored networkByFamily family = some stored)
    (hgrown : Books.Grown ⟨.newCIDRRange network, stored, leaks family⟩ b) :
    (b.stored.forEach.filterMap id).Nodup := by
  refine nodup_forEach fun o ho => ?_
  simp only [RunInput.stored, bind_eq_some_iff] at h
  obtain ⟨_, -, snapshot, -, hload⟩ := h
  exact StoredRange.offsets_lt hload o (hgrown.stored ho)

/-- No address of a configured family that is stored and unused is dropped from the
rebuilt range before its time, and the addresses in use are in it. -/
structure RunCorrect (networkByFamily : IPFamily → Option IPNet) (s : Observed)
    (input : RunInput) : Prop where
  unused : ∀ books, rebuild networkByFamily s.leaks input = .ok books →
    ∀ family network b, networkByFamily family = some network → books family = some b →
      ∀ ip, StoredUnused networkByFamily input family ip → b.rebuilt.has ip = false →
        UnusedFor networkByFamily (numRepairsBeforeLeakCleanup - 1) family ip s.past
  used : ∀ books, rebuild networkByFamily s.leaks input = .ok books →
    ∀ ip network b, networkByFamily (getFamilyByIP ip) = some network →
      books (getFamilyByIP ip) = some b → input.uses ip = true →
        ((Range.newCIDRRange network).contains ip).isSome = true → b.rebuilt.has ip = true

theorem has_of_uses (h : rebuild networkByFamily leaks input = .ok books)
    (hnet : networkByFamily (getFamilyByIP ip) = some network)
    (hb : books (getFamilyByIP ip) = some b) (huses : input.uses ip = true)
    (hip : ((newCIDRRange network).contains ip).isSome = true) : b.rebuilt.has ip = true := by
  obtain ⟨stored, services, b1, hstored, hlist, hb1, hgrown, hbooks⟩ := rebuild_ok h hnet
  simp only [RunInput.uses, hlist, getD_some, List.any_eq_true, Bool.and_eq_true,
    beq_iff_eq] at huses
  obtain ⟨svc, hsvc, hset, text, htext, hparse⟩ := huses
  obtain ⟨b2, hb2, hhas⟩ :=
    rebuilt_of_service (openBooks_eq hnet hstored) hip hsvc hset htext hparse
  rw [hb1] at hb2
  cases hb2
  rw [hbooks] at hb
  cases hb
  exact has_foldl _ hhas

lemma mem_storedIPs {stored : Range} (h : input.stored networkByFamily family = some stored) :
    ip ∈ input.storedIPs networkByFamily family ↔ some ip ∈ stored.forEach := by
  simp [RunInput.storedIPs, h]

namespace UnusedFor

variable {k : Nat} {past : List RunInput}

lemma cons (hinput : StoredUnused networkByFamily input family ip)
    (h : UnusedFor networkByFamily k family ip past) :
    UnusedFor networkByFamily (k + 1) family ip (input :: past) := by
  refine ⟨Nat.succ_le_succ h.1, fun e he => ?_⟩
  rw [take_succ_cons, List.mem_cons] at he
  rcases he with rfl | hmem
  · exact hinput
  · exact h.2 e hmem

lemma mono {k' : Nat} (hle : k' ≤ k) (h : UnusedFor networkByFamily k family ip past) :
    UnusedFor networkByFamily k' family ip past :=
  ⟨hle.trans h.1, fun e he => h.2 e ((take_prefix_take_left hle).subset he)⟩

end UnusedFor

namespace Observed

variable {s s' : Observed}

/-- The countdown of an address tells for how many runs it has been stored and unused, if
it was so in the last one. -/
def Inv (networkByFamily : IPFamily → Option IPNet) (s : Observed) : Prop :=
  ∀ family network, networkByFamily family = some network → ∀ ip count,
    (s.leaks family).lookup (some ip) = some count →
      count + 2 ≤ numRepairsBeforeLeakCleanup ∧
        ∀ last ∈ s.past.head?, StoredUnused networkByFamily last family ip →
          UnusedFor networkByFamily (numRepairsBeforeLeakCleanup - 1 - count) family ip s.past

lemma Inv.init : Inv networkByFamily (repairs networkByFamily).init := by
  intro family network hnet ip count hcount
  cases hcount

lemma Inv.unusedFor (h : Inv networkByFamily s) (hsteady : Steady networkByFamily s input)
    (hnet : networkByFamily family = some network)
    (hunused : StoredUnused networkByFamily input family ip) {count : Nat}
    (hcount : (s.leaks family).lookup (some ip) = some count) :
    UnusedFor networkByFamily (numRepairsBeforeLeakCleanup - 1 - count) family ip s.past := by
  obtain ⟨-, hentry⟩ := hsteady family network hnet ip hunused.1 hunused.2
  obtain ⟨last, hlast, hlastUnused⟩ := hentry (isSome_iff_exists.2 ⟨count, hcount⟩)
  exact (h family network hnet ip count hcount).2 last hlast hlastUnused

lemma Inv.step (h : Inv networkByFamily s) (hsteady : Steady networkByFamily s input)
    (hs : (repairs networkByFamily).step s input = some s') : Inv networkByFamily s' := by
  cases hs
  cases hrun : rebuild networkByFamily s.leaks input with
  | error err =>
    simp only [runOnce, hrun]
    exact h
  | ok books =>
    intro family network hnet ip count hcount
    obtain ⟨stored, services, b, hstored, -, -, hgrown, hbooks⟩ := rebuild_ok hrun hnet
    simp only [runOnce, hrun, hbooks, map_some, getD_some] at hcount ⊢
    by_cases hmem : some ip ∈ b.stored.forEach
    · -- the leak check meets the address
      obtain ⟨hcountdown, -⟩ := foldl_checkLeak hmem (nodup_stored hstored hgrown)
      rw [checkLeaked, hcountdown] at hcount
      cases hentry : b.leaks.lookup (some ip) with
      | none =>
        rw [hentry] at hcount
        cases hcount
        refine ⟨by decide, fun last hlast hunused => ?_⟩
        cases hlast
        exact UnusedFor.cons hunused ⟨Nat.zero_le _, fun e he => by cases he⟩
      | some before =>
        rw [hentry] at hcount
        cases hcount
        have hbefore := hgrown.leaks _ _ hentry
        obtain ⟨hle, -⟩ := h family network hnet ip before hbefore
        simp only [countdown]
        refine ⟨by omega, fun last hlast hunused => ?_⟩
        cases hlast
        exact (UnusedFor.cons hunused (h.unusedFor hsteady hnet hunused hbefore)).mono
          (by omega)
    · -- used, or not stored, or released with an address that the code takes for it
      rw [checkLeaked, lookup_foldl_of_notMem hmem] at hcount
      have hbefore := hgrown.leaks _ _ hcount
      refine ⟨(h family network hnet ip count hbefore).1, fun last hlast hunused => ?_⟩
      cases hlast
      exact (UnusedFor.cons hunused (h.unusedFor hsteady hnet hunused hbefore)).mono
        (Nat.le_succ _)

end Observed

/-- Nothing is dropped early as long as the leaks are steady. -/
lemma runCorrect_of_inv {s : Observed} (h : s.Inv networkByFamily)
    (hsteady : Steady networkByFamily s input) : RunCorrect networkByFamily s input where
  unused := by
    intro books hrun family network b hnet hb ip hunused hdrop
    obtain ⟨stored, services, b1, hstored, -, -, hgrown, hbooks⟩ := rebuild_ok hrun hnet
    rw [hbooks] at hb
    cases hb
    obtain ⟨hip, -⟩ := hsteady family network hnet ip hunused.1 hunused.2
    have hnot : ¬b1.rebuilt.has ip = true := by
      intro hhas
      rw [checkLeaked, has_foldl _ hhas] at hdrop
      cases hdrop
    -- the leak check meets the address, and its countdown has ended
    have hmem : some ip ∈ b1.stored.forEach :=
      (hgrown.kept ip hip ((mem_storedIPs hstored).1 hunused.1)).resolve_right hnot
    have hzero : b1.leaks.lookup (some ip) = some 0 := by
      by_contra hcount
      obtain ⟨-, hkept⟩ := foldl_checkLeak (b := b1) hmem (nodup_stored hstored hgrown)
      rw [contains_congr hgrown.net] at hkept
      rw [checkLeaked, hkept hcount hip] at hdrop
      cases hdrop
    exact h.unusedFor hsteady hnet hunused (hgrown.leaks _ _ hzero)
  used := fun _ hrun _ _ _ hnet hb huses hip => has_of_uses hrun hnet hb huses hip

end

/-- In every sequence of runs whose leaks are steady, each run is correct. -/
theorem repair_keeps_unused (networkByFamily : IPFamily → Option IPNet) {tr : List RunInput}
    {s : Observed} (h : (repairs networkByFamily).ReachWhen (Steady networkByFamily) tr s)
    {input : RunInput} (hsteady : Steady networkByFamily s input) :
    RunCorrect networkByFamily s input :=
  runCorrect_of_inv
    (h.invariant (Observed.Inv networkByFamily) Observed.Inv.init
      fun _ _ _ hinv hok hs => hinv.step hok hs)
    hsteady

/-- A cluster with the service CIDR 10.0.0.0/24. -/
def slash24 : IPFamily → Option IPNet
  | .ipv4Protocol => some ⟨0xffff0a000000, 24, by decide, by decide⟩
  | .ipv6Protocol => none

/-- No services, and a stored range with these data. -/
def noServices (data : List UInt8) (h : data.length < 2 ^ 63) : RunInput where
  get := fun _ => some ⟨.unset, data, h⟩
  list := some []
  order := [.ipv4Protocol]
  save := fun _ => none

/-- 10.0.0.6 is allocated. -/
def heldRun : RunInput := noServices [0x20] (by decide)

/-- Nothing is allocated. -/
def emptyRun : RunInput := noServices [] (by decide)

/-- Whether the range that a run saves has 10.0.0.6. -/
def saves (s : Observed) (input : RunInput) : List Bool :=
  (runOnce slash24 s.leaks input).saved.map fun p => p.2.has 0xffff0a000006

/-- An address that is never used is dropped in the third run. -/
theorem repair_keeps_unused_third :
    ∃ s, (repairs slash24).ReachWhen (Steady slash24) [heldRun, heldRun] s ∧
      saves s heldRun = [false] ∧ RunCorrect slash24 s heldRun := by
  obtain ⟨s, hs, hf⟩ := (repairs slash24).exists_reachWhen (Steady slash24)
    (fun s => (saves s heldRun, decide (Steady slash24 s heldRun)))
    [heldRun, heldRun] ([false], true) (by decide +kernel)
  simp only [Prod.mk.injEq, decide_eq_true_eq] at hf
  exact ⟨s, hs, hf.1, repair_keeps_unused slash24 hs hf.2⟩

/-- An address that had been stored and unused twice, was released then, and has been
allocated anew, is dropped in the first run that sees it. -/
theorem repair_drops_fresh :
    ∃ s, (repairs slash24).Reach [heldRun, heldRun, emptyRun] s ∧
      saves s heldRun = [false] ∧
      ¬StoredUnused slash24 emptyRun .ipv4Protocol 0xffff0a000006 ∧
      ¬RunCorrect slash24 s heldRun := by
  obtain ⟨s, hs, hf⟩ := (repairs slash24).exists_reach
    (fun s => (saves s heldRun,
      ((rebuild slash24 s.leaks heldRun).toOption.bind fun books =>
        books .ipv4Protocol).map fun b => b.rebuilt.has 0xffff0a000006,
      decide (UnusedFor slash24 2 .ipv4Protocol 0xffff0a000006 s.past)))
    [heldRun, heldRun, emptyRun] ([false], some false, false) (by decide +kernel)
  simp only [Prod.mk.injEq, map_eq_some_iff, bind_eq_some_iff, decide_eq_false_iff_not] at hf
  obtain ⟨hsaves, ⟨b, ⟨books, hbooks, hb⟩, hdrop⟩, hpast⟩ := hf
  refine ⟨s, hs, hsaves, by decide +kernel, fun hcorrect => hpast ?_⟩
  have hrun : rebuild slash24 s.leaks heldRun = .ok books := by
    cases hrebuild : rebuild slash24 s.leaks heldRun with
    | error err =>
      rw [hrebuild] at hbooks
      cases hbooks
    | ok books' =>
      rw [hrebuild] at hbooks
      cases hbooks
      rfl
  exact hcorrect.unused books hrun .ipv4Protocol _ b rfl hb _ (by decide +kernel) hdrop

end Kubernetes.Registry
