import Kubernetes.Kubelet.MemoryManager

/-! # The groups of nodes that `Allocate` chooses

`bestHint_ok`: the nodes that `Allocate` uses have enough free memory for the request, and the
rule that a node is used with one group only was checked for them, unless they were chosen by
the topology manager and have enough free memory.

`extension_finds_best_iff`: the topology manager may hand `Allocate` fewer nodes than any computed
hint has. Then the best of the hints that contain these nodes is looked for. `isHintInGroup` tests
whether all nodes were found before it reads the next node of the group, so that it misses a hint
if its highest node is one of them.

The totals of the code are sums of machine words that may wrap around. A total that has
wrapped around is too small, so that nothing is granted that is not there.
-/

namespace Kubernetes.Kubelet.MemoryManager

open Except GoMap List Nat

variable {ms : NUMANodeMap} {requested : GoMap ResourceName UInt64} {bits : List Int}

/-- The free memory of a node. -/
def freeAt (ms : NUMANodeMap) (k : Int) (r : ResourceName) : ℕ :=
  ((tableAt ms k r).map (·.free.toNat)).getD 0

/-- The nodes have tables for all requested resources, and enough free memory. -/
structure Fits (ms : NUMANodeMap) (requested : GoMap ResourceName UInt64) (bits : List Int) :
    Prop where
  tables : ∀ k ∈ bits, ∀ r ∈ requested.keys, (tableAt ms k r).isSome
  room : ∀ r size, requested.lookup r = some size → size.toNat ≤ (bits.map fun k => freeAt ms k r).sum

/-- The nodes that are in use are in the same group. -/
def MayUse (ms : NUMANodeMap) (bits : List Int) : Prop :=
  ∀ k ∈ bits, ∀ st, ms.lookup k = some st → 0 < st.numberOfAssignments →
    (bits = [k] ∧ st.cells.length ≤ 1) ∨ areGroupsEqual st.cells bits = true

lemma deref_eq_ok {α : Type} {o : Option α} {a : α} : deref o = .ok a ↔ o = some a := by
  cases o with
  | none => simp [deref]
  | some b => simp [deref]

/-! ## Totals -/

variable (total : GoMap ResourceName UInt64)

/-- A total so far. -/
def totalOf (r : ResourceName) : ℕ :=
  ((total.lookup r).getD 0).toNat

lemma toNat_add_le (a b : UInt64) : (a + b).toNat ≤ a.toNat + b.toNat := by
  rw [UInt64.toNat_add]
  exact mod_le _ _

lemma totalOf_insert (name r : ResourceName) (a : UInt64) :
    totalOf (total.insert name a) r = if r = name then a.toNat else totalOf total r := by
  unfold totalOf
  rw [lookup_insert_if]
  split
  · rfl
  · rfl

variable {k : Int} {total : GoMap ResourceName UInt64} {total' : GoMap ResourceName UInt64}

lemma addSizes_ok {size : MemoryTable → UInt64} {names : List ResourceName}
    (hnodup : names.Nodup)
    (h : addSizes size ms names k total = .ok total') :
    (∀ r ∈ names, (tableAt ms k r).isSome) ∧
      ∀ r, totalOf total' r ≤ totalOf total r +
        if r ∈ names then ((tableAt ms k r).map fun t => (size t).toNat).getD 0 else 0 := by
  unfold addSizes at h
  induction names generalizing total with
  | nil =>
    cases h
    exact ⟨by simp, fun r => le_add_right _ _⟩
  | cons name names ih =>
    rw [nodup_cons] at hnodup
    rw [foldlM_cons] at h
    obtain ⟨total1, hstep, h⟩ := bind_eq_ok.1 h
    obtain ⟨t, ht, hstep⟩ := bind_eq_ok.1 hstep
    rw [deref_eq_ok] at ht
    obtain rfl := ok.inj hstep
    obtain ⟨htables, hle⟩ := ih hnodup.2 h
    constructor
    · intro r hr
      rcases mem_cons.1 hr with rfl | hr
      · rw [ht]
        rfl
      · exact htables r hr
    intro r
    have hr := hle r
    rw [totalOf_insert] at hr
    by_cases heq : r = name
    · subst heq
      rw [if_pos rfl, if_neg hnodup.1, add_zero] at hr
      rw [if_pos mem_cons_self, ht]
      exact hr.trans (toNat_add_le _ _)
    · rw [if_neg heq] at hr
      simpa [heq] using hr

lemma addSizes_free
    (h : addSizes (·.free) ms requested.keys k total = .ok total') :
    (∀ r ∈ requested.keys, (tableAt ms k r).isSome) ∧
      ∀ r, totalOf total' r ≤ totalOf total r + freeAt ms k r := by
  obtain ⟨htables, hle⟩ := addSizes_ok requested.keys_nodup h
  refine ⟨htables, fun r => (hle r).trans (Nat.add_le_add_left ?_ _)⟩
  split
  · exact le_refl _
  · exact zero_le _

lemma le_of_notEnough (h : notEnough requested total = false) {r : ResourceName} {size : UInt64}
    (hr : requested.lookup r = some size) :
    size.toNat ≤ totalOf total r := by
  unfold notEnough at h
  rw [any_eq_false] at h
  have hle := h ⟨r, size⟩ (AList.mem_lookup_iff.1 hr)
  rw [decide_eq_true_eq, UInt64.not_lt, UInt64.le_iff_toNat_le] at hle
  exact hle

lemma totalOf_empty (r : ResourceName) : totalOf ∅ r = 0 := rfl

variable {mask : BitMask}

lemma freeSizes_ok (h : freeSizes ms mask requested.keys = .ok total) :
    (∀ k ∈ mask.getBits, ∀ r ∈ requested.keys, (tableAt ms k r).isSome) ∧
      ∀ r, totalOf total r ≤ (mask.getBits.map fun k => freeAt ms k r).sum := by
  unfold freeSizes at h
  have hloop : ∀ (nodes : List Int) (total0 : GoMap ResourceName UInt64),
      nodes.foldlM (fun total nodeID => addSizes (·.free) ms requested.keys nodeID total) total0 =
        .ok total →
      (∀ k ∈ nodes, ∀ r ∈ requested.keys, (tableAt ms k r).isSome) ∧
        ∀ r, totalOf total r ≤ totalOf total0 r + (nodes.map fun k => freeAt ms k r).sum := by
    intro nodes
    induction nodes with
    | nil =>
      intro total0 h
      cases h
      exact ⟨by simp, fun r => le_add_right _ _⟩
    | cons k nodes ih =>
      intro total0 h
      rw [foldlM_cons] at h
      obtain ⟨total1, hstep, h⟩ := bind_eq_ok.1 h
      obtain ⟨htables, hle⟩ := addSizes_free hstep
      obtain ⟨htables', hle'⟩ := ih total1 h
      refine ⟨forall_mem_cons.2 ⟨htables, htables'⟩, fun r => ?_⟩
      rw [map_cons, sum_cons]
      have h1 := hle r
      have h2 := hle' r
      omega
  obtain ⟨htables, hle⟩ := hloop _ _ h
  refine ⟨htables, fun r => ?_⟩
  have hr := hle r
  rwa [totalOf_empty, zero_add] at hr

lemma fits_of_isAffinitySatisfyRequest
    (h : isAffinitySatisfyRequest ms mask requested = .ok true) :
    Fits ms requested mask.getBits := by
  obtain ⟨total, htotal, h⟩ := bind_eq_ok.1 h
  obtain ⟨htables, hle⟩ := freeSizes_ok htotal
  refine ⟨htables, fun r size hr => ?_⟩
  have henough : notEnough requested total = false := by simpa using ok.inj h
  exact (le_of_notEnough henough hr).trans (hle r)

/-! ## Hints -/

lemma mayUse_ok (h : mayUse ms bits k = .ok true) (hk : k ∈ bits) {st : NUMANodeState}
    (hst : ms.lookup k = some st) (hpos : 0 < st.numberOfAssignments) :
    (bits = [k] ∧ st.cells.length ≤ 1) ∨ areGroupsEqual st.cells bits = true := by
  unfold mayUse at h
  obtain ⟨st', hst', hmay⟩ := bind_eq_ok.1 h
  rw [deref_eq_ok, hst] at hst'
  obtain rfl := Option.some.inj hst'
  split_ifs at hmay with hone
  · have hcells : decide (st.cells.length ≤ 1) = true := ok.inj hmay
    obtain ⟨k', rfl⟩ := length_eq_one_iff.1 hone
    obtain rfl := mem_singleton.1 hk
    exact .inl ⟨rfl, of_decide_eq_true hcells⟩
  · have hand : (st.cells.length ≠ 1 && areGroupsEqual st.cells bits) = true := ok.inj hmay
    rw [Bool.and_eq_true] at hand
    exact .inr hand.2

lemma sumNodes_ok {nodes : List Int} {totals totals' : Totals}
    (h : sumNodes ms requested.keys bits nodes totals = .ok (some totals')) :
    (∀ k ∈ nodes, mayUse ms bits k = .ok true) ∧
      (∀ k ∈ nodes, ∀ r ∈ requested.keys, (tableAt ms k r).isSome) ∧
      ∀ r, totalOf totals'.free r ≤
        totalOf totals.free r + (nodes.map fun k => freeAt ms k r).sum := by
  induction nodes generalizing totals with
  | nil =>
    cases h
    exact ⟨by simp, by simp, fun r => le_add_right _ _⟩
  | cons k nodes ih =>
    unfold sumNodes at h
    obtain ⟨may, hmay, h⟩ := bind_eq_ok.1 h
    cases may with
    | false => cases h
    | true =>
      obtain ⟨free, hfree, h⟩ := bind_eq_ok.1 h
      obtain ⟨allocatable, -, h⟩ := bind_eq_ok.1 h
      obtain ⟨htables, hle⟩ := addSizes_free hfree
      obtain ⟨hmay', htables', hle'⟩ := ih h
      refine ⟨forall_mem_cons.2 ⟨hmay, hmay'⟩, forall_mem_cons.2 ⟨htables, htables'⟩, ?_⟩
      intro r
      rw [map_cons, sum_cons]
      have h1 := hle r
      have h2 := hle' r
      dsimp only at h2
      omega

def Checked (ms : NUMANodeMap) (requested : GoMap ResourceName UInt64)
    (hints : GoMap ResourceName (List BitMask)) : Prop :=
  ∀ r masks, hints.lookup r = some masks →
    ∀ mask ∈ masks, Fits ms requested mask.getBits ∧ MayUse ms mask.getBits

lemma Checked.insert {hints : GoMap ResourceName (List BitMask)} (h : Checked ms requested hints)
    (hmask : Fits ms requested mask.getBits ∧ MayUse ms mask.getBits) (name : ResourceName) :
    Checked ms requested (hints.insert name ((hints.lookup name).getD [] ++ [mask])) := by
  intro r masks hr m hm
  rw [lookup_insert_if] at hr
  split at hr
  · obtain rfl := Option.some.inj hr
    exact forall_mem_append.2 ⟨forall_mem_getD (h _), forall_mem_singleton.2 hmask⟩ m hm
  · exact h r masks hr m hm

lemma Checked.considerMask {st st' : HintState} {nodes : List Int}
    (h : Checked ms requested st.hints) (hstep : considerMask ms requested st nodes = .ok st') :
    Checked ms requested st'.hints := by
  obtain ⟨mask, -, hstep⟩ := bind_eq_ok.1 hstep
  obtain ⟨totals, htotals, hstep⟩ := bind_eq_ok.1 hstep
  obtain rfl := ok.inj hstep
  cases totals with
  | none => exact h
  | some totals =>
    show Checked ms requested (addHint requested mask totals st).hints
    unfold addHint
    split
    · exact h
    split
    · exact h
    rename_i henough
    obtain ⟨hmay, htables, hle⟩ := sumNodes_ok htotals
    have hfits : Fits ms requested mask.getBits := by
      refine ⟨htables, fun r size hr => ?_⟩
      have hr' := hle r
      rw [totalOf_empty, zero_add] at hr'
      exact (le_of_notEnough (by simpa using henough) hr).trans hr'
    have hmask : MayUse ms mask.getBits := fun k hk st hst hpos =>
      mayUse_ok (hmay k hk) hk hst hpos
    exact List.foldlRecOn requested.keys _ h fun hints hc name _ => hc.insert ⟨hfits, hmask⟩ name

variable {hint : Hint} {hints : GoMap ResourceName (List Hint)}

lemma calculateHints_ok
    (h : calculateHints ms requested = .ok hints) {r : ResourceName} {l : List Hint}
    (hr : hints.lookup r = some l) (hmem : hint ∈ l) :
    Fits ms requested hint.mask.getBits ∧ MayUse ms hint.mask.getBits := by
  obtain ⟨st, hst, h⟩ := bind_eq_ok.1 h
  obtain rfl := ok.inj h
  have hchk : Checked ms requested st.hints := by
    refine foldlM_invariant _ (fun st => Checked ms requested st.hints) ?_ ?_ hst
    · intro r masks hr
      cases hr
    · intro st st' bits _ hc hstep
      exact hc.considerMask hstep
  rw [lookup_mapVal, Option.map_eq_some_iff] at hr
  obtain ⟨masks, hmasks, rfl⟩ := hr
  obtain ⟨mask, hmask, rfl⟩ := mem_map.1 hmem
  exact hchk r masks hmasks mask hmask

/-- Preferred hints come first, then narrower ones. -/
def Hint.rank (hint : Hint) : Bool ×ₗ ℕ ×ₗ ℕ :=
  toLex (!hint.preferred, toLex (hint.mask.count, hint.mask.toNat))

lemma betterHint_some (best hint : Hint) :
    betterHint (some best) hint = some (Best.pick Hint.rank best hint) := by
  have hrank : hint.rank < best.rank ↔ hint.preferred && !best.preferred ∨
      hint.preferred = best.preferred ∧ hint.mask.isNarrowerThan best.mask := by
    unfold Hint.rank BitMask.isNarrowerThan
    cases hint.preferred <;> cases best.preferred <;>
      simp [Prod.Lex.toLex_lt_toLex, BitVec.lt_def, or_comm]
  unfold betterHint Best.pick
  simp only [hrank]
  split_ifs <;> tauto

lemma findBestHint_cons (hint : Hint) (l : List Hint) :
    findBestHint (hint :: l) = some (Best.run Hint.rank hint l) := by
  show l.foldl betterHint (some hint) = _
  induction l generalizing hint with
  | nil => rfl
  | cons x l ih => rw [foldl_cons, betterHint_some, ih, Best.run_cons]

lemma findBestHint_mem {hints : List Hint} (h : findBestHint hints = some hint) :
    hint ∈ hints := by
  cases hints with
  | nil => cases h
  | cons x l =>
    rw [findBestHint_cons] at h
    cases h
    exact Best.run_mem _ x l

/-- The best of the hints for regular memory was checked. -/
lemma checked_of_mem_memory
    (h : calculateHints ms requested = .ok hints) (hmem : hint ∈ (hints.lookup .memory).getD []) :
    Fits ms requested hint.mask.getBits ∧ MayUse ms hint.mask.getBits := by
  cases hr : hints.lookup .memory with
  | none =>
    rw [hr] at hmem
    cases hmem
  | some l =>
    rw [hr] at hmem
    exact calculateHints_ok h hr hmem

lemma getDefaultHint_ok (h : getDefaultHint ms requested = .ok (some hint)) :
    Fits ms requested hint.mask.getBits ∧ MayUse ms hint.mask.getBits := by
  obtain ⟨hints, hhints, h⟩ := bind_eq_ok.1 h
  split at h
  · cases h
  · exact checked_of_mem_memory hhints (findBestHint_mem (ok.inj h))

lemma extendTopologyManagerHint_ok
    (h : extendTopologyManagerHint ms requested mask = .ok (some hint)) :
    Fits ms requested hint.mask.getBits ∧ MayUse ms hint.mask.getBits := by
  obtain ⟨hints, hhints, h⟩ := bind_eq_ok.1 h
  simp only at h
  split at h
  · cases h
  · exact checked_of_mem_memory hhints (mem_filter.1 (findBestHint_mem (ok.inj h))).1

theorem bestHint_ok {hint : TopologyHint} {best : Hint} (h : bestHint ms requested hint = .ok best) :
    Fits ms requested best.mask.getBits ∧
      (MayUse ms best.mask.getBits ∨ (hint.affinity = some best.mask ∧
        isAffinitySatisfyRequest ms best.mask requested = .ok true)) := by
  unfold bestHint at h
  obtain ⟨first, hfirst, h⟩ := bind_eq_ok.1 h
  obtain ⟨satisfied, hsat, h⟩ := bind_eq_ok.1 h
  cases satisfied with
  | true =>
    obtain rfl := ok.inj h
    refine ⟨fits_of_isAffinitySatisfyRequest hsat, ?_⟩
    unfold startHint at hfirst
    cases haff : hint.affinity with
    | some mask =>
      rw [haff] at hfirst
      obtain rfl := ok.inj hfirst
      exact .inr ⟨rfl, hsat⟩
    | none =>
      rw [haff] at hfirst
      obtain ⟨default, hdef, hfirst⟩ := bind_eq_ok.1 hfirst
      split at hfirst
      · cases hfirst
      · obtain rfl := deref_eq_ok.1 hfirst
        exact .inl (getDefaultHint_ok hdef).2
  | false =>
    obtain ⟨extended, hextended, h⟩ := bind_eq_ok.1 h
    split at h
    · cases h
    · obtain rfl := deref_eq_ok.1 h
      obtain ⟨hfits, hmay⟩ := extendTopologyManagerHint_ok hextended
      exact ⟨hfits, .inl hmay⟩

/-! ## Extending a hint -/

/-- The nodes of the mask are among those of the hint. -/
def Hint.Contains (hint : Hint) (mask : BitMask) : Prop :=
  ∀ k ∈ mask.getBits, k ∈ hint.mask.getBits

/-- Some node of the hint lies above the mask. -/
def Hint.Above (hint : Hint) (mask : BitMask) : Prop :=
  ∃ top ∈ hint.mask.getBits, ∀ k ∈ mask.getBits, k < top

/-- What a call should do with the computed hints. -/
def ExtendsTo (computed : List Hint) (mask : BitMask) : Except Failure (Option Hint) → Prop
  | .ok (some best) => (best ∈ computed ∧ best.Contains mask) ∧
      ∀ hint ∈ computed, hint.Contains mask → best.rank ≤ hint.rank
  | .ok none => False
  | .error _ => ∀ hint ∈ computed, ¬hint.Contains mask

/-- The loop, in terms of the nodes that are still to be found. -/
lemma isHintInGroupFrom_iff {hint group : List Int} {i : ℕ} (hi : i ≤ hint.length)
    (hhint : hint.Pairwise (· < ·)) (hgroup : group.Pairwise (· < ·)) :
    isHintInGroupFrom hint i group = true ↔
      (∀ k ∈ hint.drop i, k ∈ group) ∧ ∃ top ∈ group, ∀ k ∈ hint.drop i, k < top := by
  induction group generalizing i with
  | nil => simp [isHintInGroupFrom]
  | cons g group ih =>
    rw [pairwise_cons] at hgroup
    unfold isHintInGroupFrom
    split_ifs with hend hne
    · simp [hend]
    all_goals
      have hlt : i < hint.length := by omega
      have hsorted := hhint.sublist (drop_sublist i hint)
      rw [drop_eq_getElem_cons hlt, pairwise_cons] at hsorted
      rw [getElem?_eq_getElem hlt] at hne
    · rw [ih hi hgroup.2, drop_eq_getElem_cons hlt]
      grind
    · -- the next node is found
      rw [ih hlt hgroup.2, drop_eq_getElem_cons hlt]
      grind

lemma isHintInGroup_iff (hint : Hint) (mask : BitMask) :
    isHintInGroup mask.getBits hint.mask.getBits = true ↔ hint.Contains mask ∧ hint.Above mask := by
  have hsort : ∀ m : BitMask, sortInts m.getBits = m.getBits := fun m =>
    m.getBits_pairwise.imp le_of_lt |>.insertionSort_eq
  rw [isHintInGroup, hsort, hsort,
    isHintInGroupFrom_iff (zero_le _) mask.getBits_pairwise hint.mask.getBits_pairwise]
  rfl

/-- A hint that contains the mask is missed if no node of it lies above the mask. The call finds
the best hint exactly if for each hint that contains the mask there is one as good that is not
missed. -/
theorem extension_finds_best_iff (ms : NUMANodeMap) (requested : GoMap ResourceName UInt64)
    (mask : BitMask) {hints : GoMap ResourceName (List Hint)}
    (h : calculateHints ms requested = .ok hints) :
    (ExtendsTo ((hints.lookup .memory).getD []) mask (extendTopologyManagerHint ms requested mask) ↔
      ∀ hint ∈ (hints.lookup .memory).getD [], hint.Contains mask →
        ∃ seen ∈ (hints.lookup .memory).getD [],
          seen.Contains mask ∧ seen.Above mask ∧ seen.rank ≤ hint.rank) ∧
    ∀ hint : Hint, (isHintInGroup mask.getBits hint.mask.getBits = true ↔ hint.Contains mask) ↔
      (hint.Contains mask → hint.Above mask) := by
  refine ⟨?_, fun hint => by rw [isHintInGroup_iff]; tauto⟩
  unfold extendTopologyManagerHint
  rw [h]
  show ExtendsTo _ mask (if _ then _ else ok _) ↔ _
  generalize (hints.lookup .memory).getD [] = computed
  have hmem : ∀ hint, hint ∈ computed.filter (fun hint => isHintInGroup mask.getBits hint.mask.getBits) ↔
      hint ∈ computed ∧ hint.Contains mask ∧ hint.Above mask := fun hint => by
    rw [mem_filter, isHintInGroup_iff]
  cases hfiltered : computed.filter fun hint => isHintInGroup mask.getBits hint.mask.getBits with
  | nil =>
    -- an error: no hint was seen
    rw [if_pos rfl]
    simp only [hfiltered, not_mem_nil, false_iff] at hmem
    constructor
    · intro hnone hint hcomputed hcont
      exact absurd hcont (hnone hint hcomputed)
    · intro hseen hint hcomputed hcont
      obtain ⟨seen, hs⟩ := hseen hint hcomputed hcont
      exact hmem seen ⟨hs.1, hs.2.1, hs.2.2.1⟩
  | cons first rest =>
    -- the best of those that were seen
    rw [if_neg (cons_ne_nil _ _), findBestHint_cons]
    rw [hfiltered] at hmem
    obtain ⟨hcomputed, hcont, habove⟩ := (hmem _).1 (Best.run_mem Hint.rank first rest)
    constructor
    · intro hbest hint hint_mem hint_contains
      exact ⟨_, hcomputed, hcont, habove, hbest.2 hint hint_mem hint_contains⟩
    · intro hseen
      refine ⟨⟨hcomputed, hcont⟩, ?_⟩
      intro hint hint_mem hint_contains
      obtain ⟨seen, hs, hs_contains, hs_above, hle⟩ := hseen hint hint_mem hint_contains
      exact (Best.key_run_le first rest seen ((hmem seen).2 ⟨hs, hs_contains, hs_above⟩)).trans hle

/-- Two nodes, each with some free memory. -/
def twoTens : NUMANodeMap :=
  getDefaultMachineState ⟨[⟨0, 10, []⟩, ⟨1, 10, []⟩], ∅⟩

theorem extension_finds_best_two :
    ExtendsTo [⟨3, true⟩] 1 (extendTopologyManagerHint twoTens (AList.insert .memory 15 ∅) 1) := by
  have hhints : calculateHints twoTens (AList.insert .memory 15 ∅) =
      .ok (AList.insert .memory [⟨3, true⟩] ∅) := by decide +kernel
  refine (extension_finds_best_iff twoTens _ 1 hhints).1.2 fun hint hmem hcont => ?_
  refine ⟨hint, hmem, hcont, ?_, le_rfl⟩
  obtain rfl := mem_singleton.1 hmem
  exact ⟨1, by decide, by decide⟩

/-- Only both nodes together have enough memory. They are not found from the second one. -/
theorem extension_misses_both :
    calculateHints twoTens (AList.insert .memory 15 ∅) =
        .ok (AList.insert .memory [⟨3, true⟩] ∅) ∧
      extendTopologyManagerHint twoTens (AList.insert .memory 15 ∅) 2 = .error (.error
        "[memorymanager] failed to find NUMA nodes to extend the current topology hint") := by
  decide +kernel

end Kubernetes.Kubelet.MemoryManager
