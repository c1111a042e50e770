import Kubernetes.Best
import Kubernetes.GoMap
import Kubernetes.Kubelet.BitMask
import Mathlib.Data.Prod.Lex

/-! # Merging topology hints

A model of `topologymanager/policy.go` and of the best-effort, restricted and
single-numa-node policies. Each hint provider returns, for each of its resources, a list of
hints; a policy intersects one hint per resource in every possible way and keeps the best
intersection.

1. `mergeFilteredHints_eq`: the loop over the cross product keeps the best element under one
   linear order on hints (preferred first, then fewer nodes, then smaller mask).
2. `mergeFilteredHints_similar`: so the order of providers, of resources and of hints does
   not matter.
3. `admits_iff`: the single-numa-node policy admits a pod if some NUMA node suits every
   resource.
4. `hint_merge_correct_iff`: all this holds for the machines whose NUMA nodes have numbers
   below 64. For other machines the code goes on with the nil mask of a failed `NewBitMask`.

The methods of a nil mask panic; a panic is `none`.
-/

namespace Kubernetes.Kubelet

open List Option

structure TopologyHint where
  /-- `NUMANodeAffinity`, which may be nil. -/
  affinity : Option BitMask
  preferred : Bool
deriving DecidableEq

namespace TopologyManager

/-! ## The code -/

/-- What a provider answers for each resource: nil, or a slice of hints. -/
abbrev ProviderHints := GoMap String (Option (List TopologyHint))

/-- An answer, and the order in which the range over it will visit the resources. -/
structure Provider where
  hints : ProviderHints
  order : IterOrder String

variable (numaNodes : List Int)

/-- The mask of all nodes; nil if it cannot be made, since the error is dropped. -/
def defaultAffinity : Option BitMask :=
  (BitMask.newBitMask numaNodes).toOption

/-- The hint for a permutation, on a machine with the given mask of all nodes. -/
def merge (default : BitMask) (permutation : List TopologyHint) : TopologyHint where
  affinity := some (BitMask.and default (permutation.map fun hint => hint.affinity.getD default))
  preferred := permutation.all (·.preferred)

def mergePermutation (permutation : List TopologyHint) : Option TopologyHint :=
  (defaultAffinity numaNodes).map fun default => merge default permutation

def resourceHints : Option (List TopologyHint) → List TopologyHint
  | none => [⟨none, true⟩]
  | some [] => [⟨none, false⟩]
  | some (hint :: hints) => hint :: hints

/-- The body of the loop of `filterProvidersHints`. -/
def Provider.filtered (p : Provider) : List (List TopologyHint) :=
  if p.hints.keys = [] then [[⟨none, true⟩]]
  else (p.order.order p.hints.keys).map fun resource =>
    resourceHints ((p.hints.lookup resource).getD none)

variable (providers : List Provider)

def filterProvidersHints : List (List TopologyHint) :=
  providers.flatMap Provider.filtered

/-- `iterateAllProviderTopologyHints`: the permutations, in the order of the calls of the
callback. -/
def iterate : List (List TopologyHint) → List TopologyHint → List (List TopologyHint)
  | [], accum => [accum]
  | hints :: rest, accum => hints.flatMap fun hint => iterate rest (accum ++ [hint])

/-- The callback of `mergeFilteredHints`, once the hint is merged. -/
def consider (bestHint mergedHint : TopologyHint) : Option TopologyHint := do
  let merged ← mergedHint.affinity
  if merged.count = 0 then return bestHint
  if mergedHint.preferred && !bestHint.preferred then return mergedHint
  if !mergedHint.preferred && bestHint.preferred then return bestHint
  let best ← bestHint.affinity
  if !merged.isNarrowerThan best then return bestHint
  return mergedHint

def mergeFilteredHints (filteredHints : List (List TopologyHint)) : Option TopologyHint :=
  (iterate filteredHints []).foldlM
    (fun bestHint permutation => do consider bestHint (← mergePermutation numaNodes permutation))
    ⟨defaultAffinity numaNodes, false⟩

/-- `bestEffortPolicy.Merge` -/
def bestEffortMerge : Option (TopologyHint × Bool) :=
  (mergeFilteredHints numaNodes (filterProvidersHints providers)).map fun bestHint =>
    (bestHint, true)

/-- `restrictedPolicy.Merge` -/
def restrictedMerge : Option (TopologyHint × Bool) :=
  (mergeFilteredHints numaNodes (filterProvidersHints providers)).map fun hint =>
    (hint, hint.preferred)

/-- The condition of `filterSingleNumaHints`. -/
def isSingleNuma (hint : TopologyHint) : Bool :=
  match hint.affinity with
  | none => hint.preferred
  | some mask => mask.count = 1 && hint.preferred

def filterSingleNumaHints (allResourcesHints : List (List TopologyHint)) :
    List (List TopologyHint) :=
  allResourcesHints.map (List.filter isSingleNuma)

/-- `singleNumaNodePolicy.Merge` -/
def singleNumaNodeMerge : Option (TopologyHint × Bool) := do
  let bestHint ← mergeFilteredHints numaNodes (filterSingleNumaHints (filterProvidersHints providers))
  let best ← bestHint.affinity
  let default ← defaultAffinity numaNodes
  let bestHint := if best = default then ⟨none, bestHint.preferred⟩ else bestHint
  return (bestHint, bestHint.preferred)

/-! ## What merging is for -/

def mask (hint : TopologyHint) : BitMask := hint.affinity.getD 0

/-- Preferred first, then fewer nodes, then the smaller mask. -/
def Better (a b : TopologyHint) : Prop :=
  (a.preferred = true ∧ b.preferred = false) ∨
    (a.preferred = b.preferred ∧ ((mask a).count < (mask b).count ∨
      (mask a).count = (mask b).count ∧ (mask a).toNat < (mask b).toNat))

/-- The mask of exactly the given nodes. -/
def AllNodes (d : BitMask) : Prop := ∀ n, n ∈ d.getBits ↔ n ∈ numaNodes

/-- A hint for the nodes that the hints of a choice share, preferred if all of them are. A hint
without affinity is for all nodes. -/
structure Common (d : BitMask) (choice : List TopologyHint) (h : TopologyHint) : Prop where
  isSome : h.affinity.isSome
  nodes : ∀ n, n ∈ (mask h).getBits ↔
    n ∈ d.getBits ∧ ∀ x ∈ choice, ∀ m ∈ x.affinity, n ∈ m.getBits
  preferred : h.preferred = true ↔ ∀ x ∈ choice, x.preferred = true

/-- A non-empty intersection of one hint per resource. -/
def Intersection (d : BitMask) (hints : List (List TopologyHint)) (h : TopologyHint) : Prop :=
  ∃ choice, List.Forall₂ (· ∈ ·) choice hints ∧ Common d choice h ∧ (mask h).count ≠ 0

/-- The best intersection, or the non-preferred hint for all nodes if none is better. -/
structure Optimal (d : BitMask) (hints : List (List TopologyHint)) (r : TopologyHint) : Prop where
  found : r = ⟨some d, false⟩ ∨ Intersection d hints r
  best : ∀ h, h = ⟨some d, false⟩ ∨ Intersection d hints h → ¬ Better h r

/-- The same answer up to the order of its hints. -/
def Provider.Similar (p q : Provider) : Prop :=
  ∀ resource, Option.Rel (Option.Rel List.Perm) (p.hints.lookup resource) (q.hints.lookup resource)

/-- The same providers up to their order, the order in which their resources are visited, and
the order of the hints. -/
def SameProviders (providers providers' : List Provider) : Prop :=
  ∃ ps, providers.Perm ps ∧ List.Forall₂ Provider.Similar ps providers'

/-- A resource has no preference if it may be served from any node. -/
def HasPreference (hints : List TopologyHint) : Prop := (⟨none, true⟩ : TopologyHint) ∉ hints

/-- A preferred hint for the single node `n`. -/
def OffersSingle (n : Int) (hints : List TopologyHint) : Prop :=
  ∃ m : BitMask, m.getBits = [n] ∧ (⟨some m, true⟩ : TopologyHint) ∈ hints

/-- Every resource with a preference offers a preferred hint for node `n` alone. -/
def Aligned (n : Int) (providers : List Provider) : Prop :=
  ∀ p ∈ providers, ∀ resource hints, p.hints.lookup resource = some (some hints) →
    HasPreference hints → OffersSingle n hints

/-- Merging on a machine with the given NUMA nodes. -/
structure MergeCorrect (numaNodes : List Int) : Prop where
  optimal : ∀ filteredHints, ∃ d r, AllNodes numaNodes d ∧
    mergeFilteredHints numaNodes filteredHints = some r ∧ Optimal d filteredHints r
  bestEffort_order : ∀ providers providers', SameProviders providers providers' →
    bestEffortMerge numaNodes providers = bestEffortMerge numaNodes providers'
  restricted_order : ∀ providers providers', SameProviders providers providers' →
    restrictedMerge numaNodes providers = restrictedMerge numaNodes providers'
  singleNumaNode : ∀ providers, ∃ hint admitted,
    singleNumaNodeMerge numaNodes providers = some (hint, admitted) ∧
      (admitted = true ↔ ∃ n ∈ numaNodes, Aligned n providers)

/-! ## The order on hints -/

/-- The key under which the best hint is the least one. -/
def key (h : TopologyHint) : Bool ×ₗ Nat ×ₗ Nat :=
  toLex (!h.preferred, toLex ((mask h).count, (mask h).toNat))

lemma better_iff {a b : TopologyHint} : Better a b ↔ key a < key b := by
  unfold Better key
  rw [Prod.Lex.toLex_lt_toLex, Prod.Lex.toLex_lt_toLex]
  cases a.preferred <;> cases b.preferred <;> simp

lemma key_injOn {l : List TopologyHint} (h : ∀ x ∈ l, x.affinity.isSome) :
    Set.InjOn key {x | x ∈ l} := by
  intro a ha b hb hkey
  unfold key at hkey
  rw [toLex_inj, Prod.mk.injEq, toLex_inj, Prod.mk.injEq] at hkey
  obtain ⟨hp, -, hm⟩ := hkey
  obtain ⟨m, hma⟩ := isSome_iff_exists.1 (h a ha)
  obtain ⟨m', hmb⟩ := isSome_iff_exists.1 (h b hb)
  cases a with
  | mk affinity preferred =>
    cases b with
    | mk affinity' preferred' =>
      subst hma hmb
      have hmask : m = m' := BitVec.eq_of_toNat_eq hm
      have hpref : preferred = preferred' := Bool.not_inj hp
      rw [hmask, hpref]

open BitMask

lemma isNarrowerThan_iff {s t : BitMask} :
    s.isNarrowerThan t = true ↔ s.count < t.count ∨ s.count = t.count ∧ s.toNat < t.toNat := by
  unfold isNarrowerThan
  split_ifs with h
  · exact iff_of_true rfl (.inr h)
  rw [decide_eq_true_eq]
  constructor
  · exact .inl
  · rintro (hlt | heq)
    · exact hlt
    · exact absurd heq h

open Best

/-- One call of the callback: an empty intersection is skipped, another one replaces the best
hint if it is better. -/
lemma consider_eq {best merged : BitMask} {p q : Bool} :
    consider ⟨some best, p⟩ ⟨some merged, q⟩ =
      some (if merged.count = 0 then ⟨some best, p⟩
        else pick key ⟨some best, p⟩ ⟨some merged, q⟩) := by
  unfold consider
  by_cases h0 : merged.count = 0
  · simp [h0]
  have hkey : key ⟨some merged, q⟩ < key ⟨some best, p⟩ ↔
      Better ⟨some merged, q⟩ ⟨some best, p⟩ := better_iff.symm
  have hmask : ∀ (m : BitMask) (b : Bool), mask ⟨some m, b⟩ = m := fun _ _ => rfl
  unfold pick
  rw [if_neg h0]
  simp only [hkey, Better, hmask]
  cases p <;> cases q <;> simp [h0, ← isNarrowerThan_iff]
  -- the two hints are both preferred, or both are not
  all_goals cases merged.isNarrowerThan best <;> simp

/-! ## The cross product -/

variable {hints hints' : List (List TopologyHint)}

lemma mem_iterate {accum permutation : List TopologyHint} :
    permutation ∈ iterate hints accum ↔
      ∃ choice, List.Forall₂ (· ∈ ·) choice hints ∧ permutation = accum ++ choice := by
  induction hints generalizing accum with
  | nil => simp [iterate]
  | cons l hints ih =>
    simp only [iterate, mem_flatMap, ih]
    constructor
    · rintro ⟨h, hl, choice, hc, rfl⟩
      exact ⟨h :: choice, .cons hl hc, by simp⟩
    · rintro ⟨choice, hc, rfl⟩
      cases hc with
      | @cons h _ choice _ hl hc => exact ⟨h, hl, choice, hc, by simp⟩

/-- The non-empty intersections, in the order in which the loop meets them. -/
def candidates (d : BitMask) (hints : List (List TopologyHint)) : List TopologyHint :=
  ((iterate hints []).map (merge d)).filter fun h => (mask h).count ≠ 0

variable {d : BitMask} {h : TopologyHint}

/-- The code computes such a hint. -/
lemma common_iff {choice : List TopologyHint} : Common d choice h ↔ h = merge d choice := by
  have hnodes : ∀ n, n ∈ (mask (merge d choice)).getBits ↔
      n ∈ d.getBits ∧ ∀ x ∈ choice, ∀ m ∈ x.affinity, n ∈ m.getBits := by
    intro n
    refine mem_getBits_and.trans (and_congr_right fun hn => ?_)
    rw [List.forall_mem_map]
    refine forall₂_congr fun x _ => ?_
    cases x.affinity <;> simp [hn]
  constructor
  · rintro ⟨hsome, hall, hpreferred⟩
    have hmask : mask h = mask (merge d choice) :=
      ext_getBits fun n => (hall n).trans (hnodes n).symm
    rcases h with ⟨_ | m, preferred⟩
    · cases hsome
    · exact congrArg₂ TopologyHint.mk (congrArg some hmask)
        (Bool.eq_iff_iff.2 (hpreferred.trans all_eq_true.symm))
  · rintro rfl
    exact ⟨rfl, hnodes, all_eq_true⟩

lemma mem_candidates :
    h ∈ candidates d hints ↔ Intersection d hints h := by
  unfold candidates Intersection
  simp only [common_iff, mem_filter, List.mem_map, mem_iterate, decide_eq_true_eq, nil_append]
  constructor
  · rintro ⟨⟨p, ⟨choice, hc, rfl⟩, rfl⟩, hne⟩
    exact ⟨p, hc, rfl, hne⟩
  · rintro ⟨choice, hc, rfl, hne⟩
    exact ⟨⟨choice, ⟨choice, hc, rfl⟩, rfl⟩, hne⟩

lemma isSome_of_mem (hh : h ∈ (⟨some d, false⟩ : TopologyHint) :: candidates d hints) :
    h.affinity.isSome := by
  rcases mem_cons.1 hh with rfl | hh
  · rfl
  · obtain ⟨choice, -, hcommon, -⟩ := mem_candidates.1 hh
    exact hcommon.isSome

variable {numaNodes : List Int}

/-- The loop of `mergeFilteredHints` from any best hint. -/
lemma foldlM_consider (hd : defaultAffinity numaNodes = some d) (ps : List (List TopologyHint))
    (best : TopologyHint) (hbest : best.affinity.isSome) :
    ps.foldlM (fun bestHint permutation => do
        consider bestHint (← mergePermutation numaNodes permutation)) best =
      some (run key best ((ps.map (merge d)).filter fun h => (mask h).count ≠ 0)) := by
  induction ps generalizing best with
  | nil => rfl
  | cons permutation ps ih =>
    obtain ⟨affinity, preferred⟩ := best
    obtain ⟨b, rfl⟩ := isSome_iff_exists.1 hbest
    have hstep : (do consider ⟨some b, preferred⟩ (← mergePermutation numaNodes permutation)) =
        some (if (mask (merge d permutation)).count = 0 then ⟨some b, preferred⟩
          else pick key ⟨some b, preferred⟩ (merge d permutation)) := by
      rw [mergePermutation, hd]
      exact consider_eq
    rw [foldlM_cons, hstep, map_cons, filter_cons]
    by_cases h0 : (mask (merge d permutation)).count = 0
    · rw [if_pos h0, if_neg (by simpa using h0)]
      exact ih _ rfl
    rw [if_neg h0, if_pos (by simpa using h0), run_cons]
    refine ih _ ?_
    rcases pick_eq_or key ⟨some b, preferred⟩ (merge d permutation) with h | h
    · rw [h]
      rfl
    · rw [h]
      rfl

theorem mergeFilteredHints_eq (hd : defaultAffinity numaNodes = some d)
    (hints : List (List TopologyHint)) :
    mergeFilteredHints numaNodes hints = some (run key ⟨some d, false⟩ (candidates d hints)) := by
  unfold mergeFilteredHints candidates
  rw [hd]
  exact foldlM_consider hd _ _ rfl

lemma optimal_run (d : BitMask) (hints : List (List TopologyHint)) :
    Optimal d hints (run key ⟨some d, false⟩ (candidates d hints)) where
  found := by
    rcases mem_cons.1 (run_mem key ⟨some d, false⟩ (candidates d hints)) with h | h
    · exact .inl h
    · exact .inr (mem_candidates.1 h)
  best := by
    intro h hh
    rw [better_iff, not_lt]
    apply key_run_le
    rcases hh with rfl | hh
    · exact mem_cons_self
    · exact mem_cons_of_mem _ (mem_candidates.2 hh)

/-! ## Order independence -/

/-- The same lists up to their order and the order within each. -/
def Similar (hints hints' : List (List TopologyHint)) : Prop :=
  ∃ ls, hints.Perm ls ∧ List.Forall₂ List.Perm ls hints'

lemma Similar.append {a a' b b' : List (List TopologyHint)} (h : Similar a a') (h' : Similar b b') :
    Similar (a ++ b) (a' ++ b') := by
  obtain ⟨ls, hp, hf⟩ := h
  obtain ⟨ls', hp', hf'⟩ := h'
  exact ⟨ls ++ ls', hp.append hp', rel_append hf hf'⟩

lemma merge_perm {c c' : List TopologyHint} (h : c.Perm c') :
    merge d c = merge d c' := by
  unfold merge
  rw [BitMask.and_perm (h.map _)]
  congr 1
  rw [Bool.eq_iff_iff, List.all_eq_true, List.all_eq_true]
  exact ⟨fun hc x hx => hc x (h.mem_iff.2 hx), fun hc x hx => hc x (h.mem_iff.1 hx)⟩

lemma Intersection.of_similar (hs : Similar hints hints') (hi : Intersection d hints' h) :
    Intersection d hints h := by
  obtain ⟨ls, hp, hf⟩ := hs
  obtain ⟨choice, hc, hcommon, hne⟩ := hi
  obtain rfl := common_iff.1 hcommon
  -- the same choice, taken from the lists before their elements were reordered
  have hls : List.Forall₂ (· ∈ ·) choice ls := by
    clear hne hp hcommon
    induction hc generalizing ls with
    | nil =>
      cases hf
      exact .nil
    | cons hx _ ih =>
      cases hf with
      | cons hl hf => exact .cons (hl.mem_iff.2 hx) (ih _ hf)
  obtain ⟨choice', hc', hperm⟩ := perm_comp_forall₂ hp hls.flip
  exact ⟨choice', hc'.flip, common_iff.2 (merge_perm hperm.symm), hne⟩

lemma Similar.symm (h : Similar hints hints') :
    Similar hints' hints := by
  obtain ⟨ls, hp, hf⟩ := h
  obtain ⟨ls', hf', hp'⟩ := perm_comp_forall₂ hp hf
  exact ⟨ls', hp'.symm, hf'.flip.imp fun _ _ hab => List.Perm.symm hab⟩

/-- Merging does not depend on the order of the resources or of their hints. -/
theorem mergeFilteredHints_similar (hd : defaultAffinity numaNodes = some d)
    (h : Similar hints hints') :
    mergeFilteredHints numaNodes hints = mergeFilteredHints numaNodes hints' := by
  rw [mergeFilteredHints_eq hd, mergeFilteredHints_eq hd]
  congr 1
  refine run_congr (key_injOn fun x hx => isSome_of_mem hx) fun x => ?_
  rw [mem_cons, mem_cons, mem_candidates, mem_candidates]
  exact or_congr_right ⟨.of_similar h.symm, .of_similar h⟩

lemma resourceHints_perm {a b : Option (List TopologyHint)} (h : Option.Rel List.Perm a b) :
    (resourceHints a).Perm (resourceHints b) := by
  cases h with
  | none => exact .refl _
  | @some l l' h =>
    cases l with
    | nil =>
      obtain rfl : l' = [] := nil_perm.1 h
      exact .refl _
    | cons x l =>
      cases l' with
      | nil => exact absurd (perm_nil.1 h) (cons_ne_nil _ _)
      | cons y l' => exact h

lemma Provider.Similar.keys {p q : Provider} (h : p.Similar q) : p.hints.keys.Perm q.hints.keys := by
  rw [perm_ext_iff_of_nodup p.hints.keys_nodup q.hints.keys_nodup]
  intro resource
  have hmem : ∀ m : ProviderHints, resource ∈ m.keys ↔ (m.lookup resource).isSome :=
    fun m => AList.lookup_isSome.symm
  have hrel := h resource
  rw [hmem, hmem]
  generalize p.hints.lookup resource = a at hrel ⊢
  generalize q.hints.lookup resource = b at hrel ⊢
  cases hrel with
  | none => exact Iff.rfl
  | some _ => exact Iff.rfl

lemma Provider.Similar.filtered {p q : Provider} (h : p.Similar q) :
    TopologyManager.Similar p.filtered q.filtered := by
  have hkeys := h.keys
  unfold Provider.filtered
  by_cases hp : p.hints.keys = []
  · have hq : q.hints.keys = [] := by
      rw [hp] at hkeys
      exact nil_perm.1 hkeys
    rw [if_pos hp, if_pos hq]
    exact ⟨_, .refl _, .cons (.refl _) .nil⟩
  have hq : q.hints.keys ≠ [] := by
    intro hq
    rw [hq] at hkeys
    exact hp (perm_nil.1 hkeys)
  rw [if_neg hp, if_neg hq]
  -- first the order of the resources, then the hints of each
  refine ⟨_, (((p.order.perm _).trans hkeys).trans (q.order.perm _).symm).map _, ?_⟩
  rw [forall₂_map_left_iff, forall₂_map_right_iff, forall₂_same]
  intro resource _
  apply resourceHints_perm
  have hrel := h resource
  generalize p.hints.lookup resource = a at hrel ⊢
  generalize q.hints.lookup resource = b at hrel ⊢
  cases hrel with
  | none => exact .none
  | some hrel => exact hrel

lemma SameProviders.filtered {providers providers' : List Provider}
    (h : SameProviders providers providers') :
    Similar (filterProvidersHints providers) (filterProvidersHints providers') := by
  obtain ⟨ps, hp, hf⟩ := h
  have hsim : Similar (filterProvidersHints ps) (filterProvidersHints providers') := by
    clear hp
    induction hf with
    | nil => exact ⟨[], .refl _, .nil⟩
    | cons hpq _ ih => exact hpq.filtered.append ih
  obtain ⟨ls, hp', hf'⟩ := hsim
  exact ⟨ls, (hp.flatMap_right _).trans hp', hf'⟩

/-! ## Single NUMA nodes -/

/-- A hint that node `n` alone can satisfy. -/
def Suits (n : Int) (h : TopologyHint) : Prop :=
  h = ⟨none, true⟩ ∨ ∃ m : BitMask, m.getBits = [n] ∧ h = ⟨some m, true⟩

variable {n : Int}

lemma suits_iff (hn : n ∈ d.getBits) :
    Suits n h ↔ isSingleNuma h = true ∧ n ∈ (h.affinity.getD d).getBits := by
  obtain ⟨affinity, preferred⟩ := h
  unfold Suits isSingleNuma
  cases affinity with
  | none => simp [hn]
  | some m =>
    simp only [getD_some, Bool.and_eq_true, decide_eq_true_eq, count_eq_one]
    constructor
    · rintro (h | ⟨m', hm', h⟩)
      · cases h
      · cases h
        exact ⟨⟨⟨n, hm'⟩, rfl⟩, hm' ▸ mem_singleton_self n⟩
    · rintro ⟨⟨⟨k, hk⟩, rfl⟩, hmem⟩
      rw [hk, mem_singleton] at hmem
      exact .inr ⟨m, hmem ▸ hk, rfl⟩

/-- A choice of one element from each list, if each list has one. -/
lemma exists_choice {P : TopologyHint → Prop} (h : ∀ l ∈ hints, ∃ x ∈ l, P x) :
    ∃ choice, List.Forall₂ (· ∈ ·) choice hints ∧ ∀ x ∈ choice, P x := by
  induction hints with
  | nil => exact ⟨[], .nil, by simp⟩
  | cons l hints ih =>
    obtain ⟨x, hx, hP⟩ := h l mem_cons_self
    obtain ⟨choice, hc, hall⟩ := ih (forall_mem_cons.1 h).2
    exact ⟨x :: choice, .cons hx hc, forall_mem_cons.2 ⟨hP, hall⟩⟩

/-- What a choice takes from each list, and where each of its elements comes from. -/
lemma choice_total {choice : List TopologyHint} (h : List.Forall₂ (· ∈ ·) choice hints) :
    (∀ l ∈ hints, ∃ x ∈ choice, x ∈ l) ∧ ∀ x ∈ choice, ∃ l ∈ hints, x ∈ l := by
  induction h with
  | nil => simp
  | @cons a b _ _ hab _ ih =>
    constructor
    · intro l hl
      rcases mem_cons.1 hl with rfl | hl
      · exact ⟨a, mem_cons_self, hab⟩
      · obtain ⟨x, hx, hxl⟩ := ih.1 l hl
        exact ⟨x, mem_cons_of_mem _ hx, hxl⟩
    · intro x hx
      rcases mem_cons.1 hx with rfl | hx
      · exact ⟨b, mem_cons_self, hab⟩
      · obtain ⟨l, hl, hxl⟩ := ih.2 x hx
        exact ⟨l, mem_cons_of_mem _ hl, hxl⟩

/-- There is an intersection of single-node hints if one node suits every resource. -/
lemma exists_intersection_iff (d : BitMask) (hints : List (List TopologyHint)) :
    (∃ h, Intersection d (filterSingleNumaHints hints) h) ↔
      ∃ n ∈ d.getBits, ∀ l ∈ hints, ∃ x ∈ l, Suits n x := by
  constructor
  · rintro ⟨h, choice, hc, hcommon, hne⟩
    obtain rfl := common_iff.1 hcommon
    -- a node of the intersection is in every mask of the choice
    rw [Ne, count_eq_zero, not_forall] at hne
    obtain ⟨n, hn⟩ := hne
    rw [not_not] at hn
    obtain ⟨hd, hall⟩ := mem_getBits_and.1 hn
    refine ⟨n, hd, fun l hl => ?_⟩
    obtain ⟨x, hx, hmem⟩ := (choice_total hc).1 _ (mem_map_of_mem hl)
    obtain ⟨hxl, hsingle⟩ := mem_filter.1 hmem
    exact ⟨x, hxl, (suits_iff hd).2 ⟨hsingle, hall _ (mem_map_of_mem hx)⟩⟩
  · rintro ⟨n, hd, hall⟩
    obtain ⟨choice, hc, hsuits⟩ := exists_choice hall
    refine ⟨merge d choice, choice, ?_, common_iff.2 rfl, ?_⟩
    · unfold filterSingleNumaHints
      rw [forall₂_map_right_iff]
      clear hall
      induction hc with
      | nil => exact .nil
      | cons hx _ ih =>
        rw [forall_mem_cons] at hsuits
        exact .cons (mem_filter.2 ⟨hx, ((suits_iff hd).1 hsuits.1).1⟩) (ih hsuits.2)
    · rw [Ne, count_eq_zero, not_forall]
      refine ⟨n, not_not.2 (mem_getBits_and.2 ⟨hd, fun m hm => ?_⟩)⟩
      obtain ⟨x, hx, rfl⟩ := mem_map.1 hm
      exact ((suits_iff hd).1 (hsuits x hx)).2

lemma preferred_of_intersection (hi : Intersection d (filterSingleNumaHints hints) h) :
    h.preferred = true := by
  obtain ⟨choice, hc, hcommon, -⟩ := hi
  refine hcommon.preferred.2 fun x hx => ?_
  obtain ⟨l, hl, hxl⟩ := (choice_total hc).2 x hx
  obtain ⟨l, -, rfl⟩ := mem_map.1 hl
  have hsingle := (mem_filter.1 hxl).2
  unfold isSingleNuma at hsingle
  split at hsingle
  · exact hsingle
  · exact (Bool.and_eq_true _ _ ▸ hsingle).2

/-- A node suits the hints of a resource if it suits the resource. -/
lemma exists_suits_resourceHints {hints : Option (List TopologyHint)} :
    (∃ x ∈ resourceHints hints, Suits n x) ↔
      ∀ l, hints = some l → HasPreference l → OffersSingle n l := by
  have hsuits : ∀ l : List TopologyHint,
      (∃ x ∈ l, Suits n x) ↔ (HasPreference l → OffersSingle n l) := by
    intro l
    unfold HasPreference OffersSingle Suits
    rw [← or_iff_not_imp_left]
    constructor
    · rintro ⟨x, hx, rfl | ⟨m, hm, rfl⟩⟩
      · exact .inl hx
      · exact .inr ⟨m, hm, hx⟩
    · rintro (hx | ⟨m, hm, hx⟩)
      · exact ⟨_, hx, .inl rfl⟩
      · exact ⟨_, hx, .inr ⟨m, hm, rfl⟩⟩
  unfold resourceHints
  split
  · simp [Suits]
  · -- no hint at all: there is a preference that nothing can satisfy
    simp [Suits, HasPreference, OffersSingle]
  · rename_i hint l
    rw [hsuits]
    simp

lemma forall_filtered_iff {providers : List Provider} :
    (∀ l ∈ filterProvidersHints providers, ∃ x ∈ l, Suits n x) ↔ Aligned n providers := by
  unfold filterProvidersHints Aligned
  simp only [mem_flatMap, forall_exists_index, and_imp]
  rw [forall_comm]
  refine forall_congr' fun p => ?_
  constructor
  · intro h hp resource hints hlookup
    have hmem : resource ∈ p.hints.keys := by
      rw [← AList.mem_keys, GoMap.mem_iff_lookup]
      exact ⟨_, hlookup⟩
    refine exists_suits_resourceHints.1 (h _ hp ?_) hints rfl
    unfold Provider.filtered
    rw [if_neg (ne_nil_of_mem hmem), List.mem_map]
    exact ⟨resource, (p.order.perm _).mem_iff.2 hmem, by rw [hlookup]; rfl⟩
  · intro h l hp hl
    unfold Provider.filtered at hl
    split at hl
    · rw [mem_singleton] at hl
      subst hl
      exact ⟨_, mem_singleton_self _, .inl rfl⟩
    obtain ⟨resource, -, rfl⟩ := mem_map.1 hl
    refine exists_suits_resourceHints.2 fun hints hh => ?_
    cases hlookup : p.hints.lookup resource with
    | none =>
      rw [hlookup] at hh
      cases hh
    | some o =>
      rw [hlookup] at hh
      exact h hp resource hints (hlookup.trans (congrArg some hh))

/-- The single-numa-node policy admits a pod if one node suits every resource. -/
theorem admits_iff (hd : defaultAffinity numaNodes = some d) (hall : AllNodes numaNodes d)
    (providers : List Provider) :
    ∃ hint admitted, singleNumaNodeMerge numaNodes providers = some (hint, admitted) ∧
      (admitted = true ↔ ∃ n ∈ numaNodes, Aligned n providers) := by
  set hints := filterSingleNumaHints (filterProvidersHints providers)
  have hopt := optimal_run d hints
  have heq := mergeFilteredHints_eq hd hints
  generalize run key ⟨some d, false⟩ (candidates d hints) = r at hopt heq
  have hpref : r.preferred = true ↔ ∃ n ∈ numaNodes, Aligned n providers := by
    have hiff := exists_intersection_iff d (filterProvidersHints providers)
    simp only [hall _, forall_filtered_iff] at hiff
    rw [← hiff]
    constructor
    · intro hr
      rcases hopt.found with rfl | hi
      · cases hr
      · exact ⟨r, hi⟩
    · rintro ⟨h, hi⟩
      -- a preferred intersection beats a hint that is not preferred
      by_contra hr
      exact hopt.best h (.inr hi) (.inl ⟨preferred_of_intersection hi, Bool.eq_false_iff.2 hr⟩)
  have hsome : ∃ m, r.affinity = some m := by
    rcases hopt.found with rfl | ⟨choice, -, hcommon, -⟩
    · exact ⟨_, rfl⟩
    · exact Option.isSome_iff_exists.1 hcommon.isSome
  obtain ⟨m, hm⟩ := hsome
  refine ⟨if m = d then ⟨none, r.preferred⟩ else r, r.preferred, ?_, hpref⟩
  unfold singleNumaNodeMerge
  rw [heq]
  simp only [bind_eq_bind, bind_some, hm, hd, pure]
  split
  · rfl
  · rfl

/-! ## Correctness -/

lemma defaultAffinity_of_valid (h : BitMask.Valid numaNodes) :
    ∃ d, defaultAffinity numaNodes = some d ∧ AllNodes numaNodes d := by
  obtain ⟨d, hd, hmem⟩ := newBitMask_ok h
  refine ⟨d, ?_, hmem⟩
  unfold defaultAffinity
  rw [hd]
  rfl

/-- Merging is correct on exactly the machines whose NUMA nodes are numbered from 0 to 63. -/
theorem hint_merge_correct_iff (numaNodes : List Int) :
    MergeCorrect numaNodes ↔ ∀ n ∈ numaNodes, 0 ≤ n ∧ n < 64 := by
  constructor
  · intro h n hn
    obtain ⟨d, -, hall, -⟩ := h.optimal []
    exact BitMask.range_of_mem_getBits ((hall n).2 hn)
  intro hvalid
  obtain ⟨d, hd, hall⟩ := defaultAffinity_of_valid hvalid
  exact {
    optimal := fun hints => ⟨d, _, hall, mergeFilteredHints_eq hd hints, optimal_run d hints⟩
    bestEffort_order := by
      intro providers providers' hsame
      unfold bestEffortMerge
      rw [mergeFilteredHints_similar hd hsame.filtered]
    restricted_order := by
      intro providers providers' hsame
      unfold restrictedMerge
      rw [mergeFilteredHints_similar hd hsame.filtered]
    singleNumaNode := admits_iff hd hall }

/-- A machine with a memory-only NUMA node 255: merging a hint without an affinity panics. -/
theorem hint_merge_node_255 :
    mergeFilteredHints [0, 255] [[⟨none, true⟩]] = none ∧ ¬ MergeCorrect [0, 255] := by
  refine ⟨rfl, fun h => ?_⟩
  obtain ⟨d, r, -, hr, -⟩ := h.optimal [[⟨none, true⟩]]
  cases hr

end TopologyManager

end Kubernetes.Kubelet
