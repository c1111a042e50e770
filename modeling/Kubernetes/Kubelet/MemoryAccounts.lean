import Kubernetes.Kubelet.MemoryTables

/-! # Memory is accounted for

A state is accounted for (`Accounts`) if its machine state represents a sound ledger of its
blocks. `Accounts.allocate` and `Accounts.removeContainer` say which calls keep it.

1. `memory_conserved`: with the default hints, memory is conserved on every node and in every
   group of nodes.
2. `groups_kept`: with hints of the topology manager, groups are kept apart as long as no hint
   with enough free memory cuts through a group in use.
3. `group_split_by_hint`: `Allocate` does not check such a hint against the groups.
-/

namespace Kubernetes.Kubelet.MemoryManager

open GoMap List

variable {L : Ledger Int ResourceName} {b : Block}

/-! ## Accounted states -/

variable {order : IterOrder ResourceName} {requested : GoMap ResourceName UInt64}

variable {blocks : List Block} {p : Policy} {s s' : StateMemory}

/-- The machine state has booked the blocks of the state. -/
structure Accounts (p : Policy) (L : Ledger Int ResourceName) (s : StateMemory) : Prop where
  represents : Represents (getDefaultMachineState p) s.machineState L
  sound : L.Sound (capacity (getDefaultMachineState p)) (s.blocks.map Block.holding)
  sorted : ∀ b ∈ s.blocks, b.numaAffinity.Pairwise (· < ·)
  known : ∀ b ∈ s.blocks, ∀ k ∈ b.numaAffinity, (tableAt (getDefaultMachineState p) k b.type).isSome
  distinct : ∀ pod c blocks, s.getMemoryBlocks pod c = some blocks → (blocks.map (·.type)).Nodup

lemma accounts_start (p : Policy) : Accounts p Ledger.empty (start p) where
  represents := represents_default p
  sound := Ledger.Sound.empty
  sorted := by
    intro b hb
    cases hb
  known := by
    intro b hb
    cases hb
  distinct := by
    intro pod c blocks h
    cases h

lemma allocate_cases {pod : Pod} {container : Container} {hint : TopologyHint}
    (h : allocate s pod container hint order = .ok s') :
    s' = s ∨ ∃ requested best ms', getPodQOS pod = .guaranteed ∧
      s.getMemoryBlocks pod.uid container.name = none ∧
      getRequestedResources container = .ok requested ∧
      bestHint s.machineState requested hint = .ok best ∧
      (containerBlocks requested order best.mask.getBits).foldlM allocateBlock s.machineState =
        .ok ms' ∧
      s' = (s.setMachineState ms').setMemoryBlocks pod.uid container.name
        (containerBlocks requested order best.mask.getBits) := by
  unfold allocate at h
  split at h
  · exact .inl (Except.ok.inj h).symm
  rename_i hqos
  cases hblocks : s.getMemoryBlocks pod.uid container.name with
  | some blocks =>
    rw [hblocks] at h
    exact .inl (Except.ok.inj h).symm
  | none =>
    rw [hblocks] at h
    obtain ⟨requested, hrequested, h⟩ := bind_eq_ok.1 h
    obtain ⟨best, hbest, h⟩ := bind_eq_ok.1 h
    obtain ⟨ms', hms', h⟩ := bind_eq_ok.1 h
    exact .inr ⟨requested, best, ms', not_not.1 hqos, rfl, hrequested, hbest, hms', (Except.ok.inj h).symm⟩

lemma removeContainer_cases {podUID containerName : String}
    (h : removeContainer s podUID containerName = .ok s') :
    s' = s ∨ ∃ blocks ms', s.getMemoryBlocks podUID containerName = some blocks ∧
      blocks.foldlM releaseBlock s.machineState = .ok ms' ∧
      s' = (s.delete podUID containerName).setMachineState ms' := by
  unfold removeContainer at h
  cases hblocks : s.getMemoryBlocks podUID containerName with
  | none =>
    rw [hblocks] at h
    exact .inl (Except.ok.inj h).symm
  | some blocks =>
    rw [hblocks] at h
    obtain ⟨ms', hms', h⟩ := bind_eq_ok.1 h
    exact .inr ⟨blocks, ms', rfl, hms', (Except.ok.inj h).symm⟩

lemma mem_containerBlocks
    {bits : List Int} (h : b ∈ containerBlocks requested order bits) :
    b.numaAffinity = bits ∧ b.type ∈ requested.keys ∧ requested.lookup b.type = some b.size := by
  obtain ⟨r, hr, rfl⟩ := mem_map.1 h
  have hkey : r ∈ requested.keys := (order.perm _).mem_iff.1 hr
  obtain ⟨size, hsize⟩ := mem_iff_lookup.1 (AList.mem_keys.2 hkey)
  refine ⟨rfl, hkey, ?_⟩
  rw [hsize, Option.getD_some]

lemma types_containerBlocks (requested : GoMap ResourceName UInt64)
    (order : IterOrder ResourceName) (bits : List Int) :
    ((containerBlocks requested order bits).map (·.type)).Nodup := by
  have htypes : (containerBlocks requested order bits).map (·.type) = order.order requested.keys := by
    simp [containerBlocks, Function.comp_def]
  rw [htypes, (order.perm _).nodup_iff]
  exact requested.keys_nodup

variable {pod c : String}

lemma blocks_setMemoryBlocks (h : s.getMemoryBlocks pod c = none)
    (blocks : List Block) : ((s.setMemoryBlocks pod c blocks).blocks).Perm (blocks ++ s.blocks) :=
  (NestedMap.values_put h blocks).flatten

lemma blocks_delete
    (h : s.getMemoryBlocks pod c = some blocks) :
    s.blocks.Perm (blocks ++ (s.delete pod c).blocks) :=
  (NestedMap.values_delete h).flatten

/-- Two sorted groups that `areGroupsEqual` finds equal are equal. -/
lemma eq_of_areGroupsEqual {l l' : List Int} (hl : l.Pairwise (· < ·)) (hl' : l'.Pairwise (· < ·))
    (h : areGroupsEqual l l' = true) : l = l' := by
  unfold areGroupsEqual sortInts at h
  rw [decide_eq_true_eq] at h
  rwa [List.Pairwise.insertionSort_eq (hl.imp le_of_lt),
    List.Pairwise.insertionSort_eq (hl'.imp le_of_lt)] at h

namespace Accounts

variable (h : Accounts p L s)

include h

lemma nodup (hb : b ∈ s.blocks) : b.numaAffinity.Nodup :=
  (h.sorted b hb).imp ne_of_lt

lemma lookup_of_count {k : Int} (hk : L.count k ≠ 0) :
    ∃ b ∈ s.blocks, k ∈ b.numaAffinity ∧ L.cells k = b.numaAffinity ∧
      ∃ st, s.machineState.lookup k = some st ∧ 0 < st.numberOfAssignments ∧ st.cells = L.cells k := by
  obtain ⟨c, hc, hmem, hcells⟩ := h.sound.cells_of_count hk
  obtain ⟨b, hb, rfl⟩ := mem_map.1 hc
  have hsome : (s.machineState.lookup k).isSome := by
    rw [h.represents.nodes k]
    have htable := h.known b hb k hmem
    unfold tableAt at htable
    cases hst : (getDefaultMachineState p).lookup k with
    | none =>
      rw [hst] at htable
      cases htable
    | some st => rfl
  obtain ⟨st, hst⟩ := Option.isSome_iff_exists.1 hsome
  have hheader := Prod.mk.inj (h.represents.headers k st hst)
  have hnonneg : 0 ≤ L.count k := by
    rw [h.sound.count k]
    exact Int.natCast_nonneg _
  refine ⟨b, hb, hmem, hcells, st, hst, ?_, hheader.2⟩
  rw [hheader.1]
  omega

/-- Nodes that may be used together are free or form a group. -/
lemma group_of_mayUse {mask : BitMask} (hmay : MayUse s.machineState mask.getBits) :
    ∀ k ∈ mask.getBits, L.count k ≠ 0 → L.cells k = mask.getBits := by
  intro k hk hcount
  obtain ⟨b, hb, hmem, hcells, st, hst, hpos, hst'⟩ := h.lookup_of_count hcount
  rw [hcells]
  rw [hcells] at hst'
  rcases hmay k hk st hst hpos with ⟨hone, hlen⟩ | heq
  · -- a single node, whose group has no other
    rw [hst'] at hlen
    rw [hone]
    have hpos' := length_pos_of_mem hmem
    obtain ⟨k', hk'⟩ := length_eq_one_iff.1 (le_antisymm hlen hpos')
    rw [hk'] at hmem ⊢
    rw [mem_singleton.1 hmem]
  · rw [hst'] at heq
    exact eq_of_areGroupsEqual (h.sorted b hb) mask.getBits_pairwise heq

theorem allocate
    {mask : BitMask} {ms' : NUMANodeMap}
    (hnone : s.getMemoryBlocks pod c = none) (hfits : Fits s.machineState requested mask.getBits)
    (hgroup : ∀ k ∈ mask.getBits, L.count k ≠ 0 → L.cells k = mask.getBits)
    (hstep : (containerBlocks requested order mask.getBits).foldlM allocateBlock s.machineState =
      .ok ms') :
    ∃ L', Accounts p L' ((s.setMachineState ms').setMemoryBlocks pod c
        (containerBlocks requested order mask.getBits)) ∧
      (L.Front (capacity (getDefaultMachineState p)) (s.blocks.map Block.holding) →
        L'.Front (capacity (getDefaultMachineState p))
          (((s.setMachineState ms').setMemoryBlocks pod c
            (containerBlocks requested order mask.getBits)).blocks.map Block.holding)) := by
  set blocks := containerBlocks requested order mask.getBits
  have hmem : ∀ b ∈ blocks, _ := fun b hb => mem_containerBlocks hb
  have hnodup : mask.getBits.Nodup := mask.getBits_pairwise.imp ne_of_lt
  have hperm := blocks_setMemoryBlocks (s := s.setMachineState ms') hnone blocks
  have hnews : ∀ c ∈ blocks.map Block.holding, c.nodes = mask.getBits := by
    intro c hc
    obtain ⟨b, hb, rfl⟩ := mem_map.1 hc
    exact (hmem b hb).1
  have hres : ((blocks.map Block.holding).map (·.resource)).Nodup := by
    rw [map_map]
    exact types_containerBlocks requested order mask.getBits
  have hroom : ∀ c ∈ blocks.map Block.holding,
      c.amount ≤ (mask.getBits.map fun k =>
        capacity (getDefaultMachineState p) k c.resource - L.reserved k c.resource).sum := by
    intro c hc
    obtain ⟨b, hb, rfl⟩ := mem_map.1 hc
    have hle := hfits.room b.type b.size (hmem b hb).2.2
    have hfree : ∀ k, freeAt s.machineState k b.type =
        capacity (getDefaultMachineState p) k b.type - L.reserved k b.type :=
      h.represents.sizeAt_free b.type
    simp only [hfree] at hle
    exact hle
  have hplaced := h.sound.place_all hnodup hnews hres hgroup hroom
  refine ⟨(blocks.map Block.holding).foldl (Ledger.place (capacity (getDefaultMachineState p))) L,
    ⟨?_, ?_, ?_, ?_, ?_⟩, fun hfront => ?_⟩
  · refine h.represents.allocateBlocks (fun b hb => ?_) hstep
    rw [(hmem b hb).1]
    exact hnodup
  · refine hplaced.1.perm ?_
    rw [← map_append]
    exact hperm.symm.map _
  · intro b hb
    rcases mem_append.1 (hperm.mem_iff.1 hb) with hb | hb
    · rw [(hmem b hb).1]
      exact mask.getBits_pairwise
    · exact h.sorted b hb
  · intro b hb k hk
    rcases mem_append.1 (hperm.mem_iff.1 hb) with hb | hb
    · obtain ⟨hbits, hkey, -⟩ := hmem b hb
      rw [hbits] at hk
      have htable := hfits.tables k hk b.type hkey
      rw [h.represents.tables, Option.isSome_map] at htable
      exact htable
    · exact h.known b hb k hk
  · intro pod' c' bs hbs
    have hget := hbs.symm.trans (NestedMap.get_put s.assignments pod c blocks pod' c')
    split at hget
    · rw [Option.some.inj hget]
      exact types_containerBlocks requested order mask.getBits
    · exact h.distinct pod' c' bs hget.symm
  · refine (hplaced.2 hfront).perm ?_
    rw [← map_append]
    exact hperm.symm.map _

theorem removeContainer
    {ms' : NUMANodeMap} (hblocks : s.getMemoryBlocks pod c = some blocks)
    (hstep : blocks.foldlM releaseBlock s.machineState = .ok ms') :
    Accounts p ((blocks.map Block.holding).foldl Ledger.release L)
      ((s.delete pod c).setMachineState ms') := by
  have hperm := blocks_delete hblocks
  have hsound : L.Sound (capacity (getDefaultMachineState p))
      (blocks.map Block.holding ++ (s.delete pod c).blocks.map Block.holding) := by
    rw [← map_append]
    exact h.sound.perm (hperm.map _)
  have hkept : ∀ b ∈ ((s.delete pod c).setMachineState ms').blocks, b ∈ s.blocks :=
    fun b hb => hperm.mem_iff.2 (mem_append_right _ hb)
  constructor
  case represents => exact h.represents.releaseBlocks hsound hstep
  case sound => exact hsound.release_all
  case sorted => exact fun b hb => h.sorted b (hkept b hb)
  case known => exact fun b hb => h.known b (hkept b hb)
  case distinct =>
    intro pod' c' blocks' hblocks'
    have hget := hblocks'.symm.trans (NestedMap.get_delete s.assignments pod c pod' c')
    split_ifs at hget
    exact h.distinct pod' c' blocks' hget.symm

end Accounts

/-! ## Runs -/

/-- The memory of a resource that is reserved on a node. -/
def reservedAt (ms : NUMANodeMap) (k : Int) (r : ResourceName) : ℕ := sizeAt (·.reserved) ms r k

def sizes (blocks : List Block) : ℕ := (blocks.map (·.size.toNat)).sum

structure Conserved (s : StateMemory) : Prop where
  /-- On each node, every table adds up. -/
  balanced : ∀ k r t, tableAt s.machineState k r = some t →
    t.free.toNat + t.reserved.toNat = t.allocatable.toNat
  /-- The nodes in use are partitioned into groups. -/
  grouped : ∀ k st, s.machineState.lookup k = some st → 0 < st.numberOfAssignments →
    k ∈ st.cells ∧ ∀ k' ∈ st.cells, ∃ st', s.machineState.lookup k' = some st' ∧
      0 < st'.numberOfAssignments ∧ st'.cells = st.cells
  /-- A block is on a group. -/
  blocks : ∀ b ∈ s.blocks, ∀ k ∈ b.numaAffinity, ∃ st, s.machineState.lookup k = some st ∧
    0 < st.numberOfAssignments ∧ st.cells = b.numaAffinity
  /-- What a group has reserved are its blocks. -/
  reserved : ∀ k st, s.machineState.lookup k = some st → 0 < st.numberOfAssignments →
    ∀ r, (st.cells.map fun k => reservedAt s.machineState k r).sum =
      sizes (s.blocks.filter fun b => b.numaAffinity = st.cells ∧ b.type = r)

/-- The topology manager gives no affinity. -/
def DefaultHints (_ : StateMemory) : Call → Prop
  | .allocate _ _ hint _ => hint.affinity = none
  | .removeContainer _ _ => True

/-- The groups of nodes are kept apart. -/
structure Disciplined (s : StateMemory) : Prop where
  same : ∀ b ∈ s.blocks, ∀ b' ∈ s.blocks, ∀ k, k ∈ b.numaAffinity → k ∈ b'.numaAffinity →
    b.numaAffinity = b'.numaAffinity
  kept : ∀ b ∈ s.blocks, ∀ r,
    sizes (s.blocks.filter fun b' => b'.numaAffinity ⊆ b.numaAffinity ∧ b'.type = r) ≤
      (b.numaAffinity.map fun k => reservedAt s.machineState k r).sum

/-- If a container is still to be given memory and the nodes that the topology manager chose have
enough of it free, those of the nodes that are in use are used as a group already. -/
def HintKeepsGroups (s : StateMemory) : Call → Prop
  | .allocate pod container hint _ =>
    getPodQOS pod = .guaranteed → s.getMemoryBlocks pod.uid container.name = none →
      ∀ mask ∈ hint.affinity, ∀ requested ∈ (getRequestedResources container).toOption,
        isAffinitySatisfyRequest s.machineState mask requested = .ok true →
          ∀ k ∈ mask.getBits, ∀ st ∈ s.machineState.lookup k, 0 < st.numberOfAssignments →
            st.cells = mask.getBits
  | .removeContainer _ _ => True

lemma total_holdings (blocks : List Block) (group : List Int) (r : ResourceName) :
    Ledger.total (blocks.map Block.holding) group r =
      sizes (blocks.filter fun b => b.numaAffinity = group ∧ b.type = r) := by
  unfold Ledger.total sizes
  rw [filter_map, map_map]
  rfl

lemma sizes_filter_le {P Q : Block → Bool}
    (h : ∀ b ∈ blocks, P b = true → Q b = true ∨ b.size.toNat = 0) :
    sizes (blocks.filter P) ≤ sizes (blocks.filter Q) := by
  unfold sizes
  induction blocks with
  | nil => exact le_refl _
  | cons b blocks ih =>
    have hrest := ih (forall_mem_cons.1 h).2
    rw [filter_cons, filter_cons]
    by_cases hP : P b = true
    · rcases h b mem_cons_self hP with hQ | hzero
      · rw [if_pos hP, if_pos hQ, map_cons, sum_cons, map_cons, sum_cons]
        omega
      rw [if_pos hP, map_cons, sum_cons, hzero, Nat.zero_add]
      split
      · rw [map_cons, sum_cons]
        omega
      · exact hrest
    · rw [if_neg hP]
      split
      · rw [map_cons, sum_cons]
        omega
      · exact hrest

lemma DefaultHints.keepsGroups {call : Call} (h : DefaultHints s call) :
    HintKeepsGroups s call := by
  cases call with
  | allocate pod container hint order =>
    intro _ _ mask hmask
    rw [show hint.affinity = none from h] at hmask
    cases hmask
  | removeContainer podUID containerName => exact trivial

/-- A call that does not panic completes, or leaves the state as it is. -/
lemma complete_eq_some {result : Except Failure StateMemory} (h : complete s result = some s') :
    result = .ok s' ∨ s' = s := by
  unfold complete at h
  split at h
  · exact .inl (congrArg _ (Option.some.inj h))
  · exact .inr (Option.some.inj h).symm
  · cases h

namespace Accounts

variable (h : Accounts p L s)

include h

lemma reservedAt_eq (k : Int) (r : ResourceName) :
    reservedAt s.machineState k r = L.reserved k r :=
  h.represents.sizeAt_reserved h.sound.bound r k

lemma lookup_of_mem (hb : b ∈ s.blocks) {k : Int} (hk : k ∈ b.numaAffinity) :
    ∃ st, s.machineState.lookup k = some st ∧ 0 < st.numberOfAssignments ∧
      st.cells = b.numaAffinity := by
  have hcount : L.count k ≠ 0 := h.sound.count_pos_iff.2 ⟨b.holding, mem_map_of_mem hb, hk⟩
  obtain ⟨c, hc, hmem, hcells, st, hst, hpos, hst'⟩ := h.lookup_of_count hcount
  refine ⟨st, hst, hpos, hst'.trans ?_⟩
  exact h.sound.cells b.holding (mem_map_of_mem hb) k hk

lemma cells_eq {k : Int} {st : NUMANodeState}
    (hst : s.machineState.lookup k = some st) (hpos : 0 < st.numberOfAssignments) :
    ∃ b ∈ s.blocks, k ∈ b.numaAffinity ∧ st.cells = b.numaAffinity := by
  have hheader := Prod.mk.inj (h.represents.headers k st hst)
  obtain ⟨b, hb, hmem, hcells, -⟩ := h.lookup_of_count (k := k) (by omega)
  exact ⟨b, hb, hmem, hheader.2.trans hcells⟩

lemma sum_reserved (hb : b ∈ s.blocks) (r : ResourceName) :
    (b.numaAffinity.map fun k => reservedAt s.machineState k r).sum =
      sizes (s.blocks.filter fun b' => b'.numaAffinity = b.numaAffinity ∧ b'.type = r) := by
  rw [← total_holdings]
  simp only [h.reservedAt_eq]
  exact h.sound.sum b.holding (mem_map_of_mem hb) r

lemma conserved : Conserved s := by
  constructor
  case balanced =>
    intro k r t ht
    rw [h.represents.tables, Option.map_eq_some_iff] at ht
    obtain ⟨t0, ht0, rfl⟩ := ht
    have hle := h.sound.bound k r
    rw [capacity_of_tableAt ht0] at hle
    show (UInt64.ofNat (t0.allocatable.toNat - L.reserved k r)).toNat +
      (UInt64.ofNat (L.reserved k r)).toNat = t0.allocatable.toNat
    rw [toNat_ofNat_le hle, toNat_ofNat_le (Nat.sub_le t0.allocatable.toNat (L.reserved k r))]
    omega
  case grouped =>
    intro k st hst hpos
    obtain ⟨b, hb, hmem, hcells⟩ := h.cells_eq hst hpos
    rw [hcells]
    exact ⟨hmem, fun k' hk' => h.lookup_of_mem hb hk'⟩
  case blocks => exact fun b hb k hk => h.lookup_of_mem hb hk
  case reserved =>
    intro k st hst hpos r
    obtain ⟨b, hb, -, hcells⟩ := h.cells_eq hst hpos
    rw [hcells]
    exact h.sum_reserved hb r

lemma disciplined : Disciplined s := by
  have hsame : ∀ b ∈ s.blocks, ∀ b' ∈ s.blocks, ∀ k, k ∈ b.numaAffinity → k ∈ b'.numaAffinity →
      b.numaAffinity = b'.numaAffinity := fun b hb b' hb' k hk hk' =>
    h.sound.group_eq (mem_map_of_mem (f := Block.holding) hb) (mem_map_of_mem hb') hk hk'
  refine ⟨hsame, fun b hb r => ?_⟩
  rw [h.sum_reserved hb r]
  -- a block within the nodes of another one has the same nodes, or no nodes and no size
  have hsplit : ∀ b' ∈ s.blocks, b'.numaAffinity ⊆ b.numaAffinity →
      b'.numaAffinity = b.numaAffinity ∨ b'.size.toNat = 0 := by
    intro b' hb' hsub
    cases hnodes : b'.numaAffinity with
    | nil =>
      right
      have hzero := h.sum_reserved hb' b'.type
      rw [hnodes, map_nil, sum_nil] at hzero
      have hmem : b' ∈ s.blocks.filter fun c => c.numaAffinity = [] ∧ c.type = b'.type :=
        mem_filter.2 ⟨hb', by simp [hnodes]⟩
      exact sum_eq_zero_iff.1 hzero.symm _ (mem_map_of_mem hmem)
    | cons k nodes =>
      left
      have hk : k ∈ b'.numaAffinity := hnodes ▸ mem_cons_self
      rw [← hnodes]
      exact hsame b' hb' b hb k hk (hsub hk)
  refine sizes_filter_le fun b' hb' hP => ?_
  rw [decide_eq_true_eq] at hP ⊢
  rcases hsplit b' hb' hP.1 with heq | hzero
  · exact .inl ⟨heq, hP.2⟩
  · exact .inr hzero

lemma group_of_hint {pod : Pod} {container : Container} {hint : TopologyHint}
    (hok : HintKeepsGroups s (.allocate pod container hint order)) (hqos : getPodQOS pod = .guaranteed)
    (hnone : s.getMemoryBlocks pod.uid container.name = none)
    (hrequested : getRequestedResources container = .ok requested)
    {best : Hint} (hbest : bestHint s.machineState requested hint = .ok best) :
    ∀ k ∈ best.mask.getBits, L.count k ≠ 0 → L.cells k = best.mask.getBits := by
  rcases (bestHint_ok hbest).2 with hmay | ⟨haff, hsat⟩
  · exact h.group_of_mayUse hmay
  intro k hk hcount
  obtain ⟨b, hb, hmem, hcells, st, hst, hpos, hst'⟩ := h.lookup_of_count hcount
  rw [← hst']
  exact hok hqos hnone best.mask haff requested (by rw [hrequested]; rfl) hsat k hk st hst hpos

/-- The blocks of a removed container can be given up without moving others. -/
def LooseCall (L : Ledger Int ResourceName) (s : StateMemory) : Call → Prop
  | .allocate _ _ _ _ => True
  | .removeContainer podUID containerName =>
    ∀ blocks, s.getMemoryBlocks podUID containerName = some blocks → ∀ b ∈ blocks, L.Loose b.holding

lemma step {call : Call} (hok : HintKeepsGroups s call)
    (hstep : (manager p).step s call = some s') :
    ∃ L', Accounts p L' s' ∧
      (L.Front (capacity (getDefaultMachineState p)) (s.blocks.map Block.holding) →
        LooseCall L s call →
          L'.Front (capacity (getDefaultMachineState p)) (s'.blocks.map Block.holding)) := by
  cases call with
  | allocate pod container hint order =>
    rcases complete_eq_some hstep with hdone | rfl
    · rcases allocate_cases hdone with rfl | ⟨requested, best, ms', hqos, hnone, hreq, hbest, hms', rfl⟩
      · exact ⟨L, h, fun hfront _ => hfront⟩
      · obtain ⟨L', hL', hfront⟩ := h.allocate hnone (bestHint_ok hbest).1
          (h.group_of_hint hok hqos hnone hreq hbest) hms'
        exact ⟨L', hL', fun hf _ => hfront hf⟩
    · exact ⟨L, h, fun hfront _ => hfront⟩
  | removeContainer podUID containerName =>
    rcases complete_eq_some hstep with hdone | rfl
    · rcases removeContainer_cases hdone with rfl | ⟨blocks, ms', hblocks, hms', rfl⟩
      · exact ⟨L, h, fun hfront _ => hfront⟩
      refine ⟨_, h.removeContainer hblocks hms', fun hfront hloose => ?_⟩
      have hperm := (blocks_delete hblocks).map Block.holding
      rw [map_append] at hperm
      refine (hfront.perm hperm).release_all (h.sound.perm hperm) ?_ ?_
      · rw [map_map]
        exact h.distinct _ _ _ hblocks
      · intro c hc
        obtain ⟨b, hb, rfl⟩ := mem_map.1 hc
        exact hloose blocks hblocks b hb
    · exact ⟨L, h, fun hfront _ => hfront⟩

end Accounts

lemma accounts_of_reach {tr : List Call} (h : (manager p).ReachWhen HintKeepsGroups tr s) :
    ∃ L, Accounts p L s := by
  refine h.invariant (fun s => ∃ L, Accounts p L s) ⟨_, accounts_start p⟩ ?_
  rintro s call s' ⟨L, hL⟩ hok hstep
  obtain ⟨L', hL', -⟩ := hL.step hok hstep
  exact ⟨L', hL'⟩

/-- Two NUMA nodes with 20 bytes each, of which 10 are reserved for the system. -/
def twoNodes : Policy :=
  let reserved : GoMap ResourceName UInt64 := AList.insert .memory 10 ∅
  { topology := [⟨0, 20, []⟩, ⟨1, 20, []⟩]
    systemReserved := AList.insert 0 reserved (AList.insert 1 reserved ∅) }

/-- A container that asks for one CPU and an amount of memory. -/
def container (name : String) (size : Nat) : Container :=
  let resources : ResourceList :=
    (AList.insert .cpu ⟨1000000000, true⟩ ∅).insert .memory ⟨size * 1000000000, true⟩
  ⟨name, resources, resources⟩

/-- The first allocation of a container of a pod of its own. -/
def allocateCall (podUID : String) (size : Nat) (hint : TopologyHint) : Call :=
  .allocate ⟨podUID, [], [container "c" size]⟩ (container "c" size) hint ⟨id, fun _ => .refl _⟩

instance (s : StateMemory) : (call : Call) → Decidable (DefaultHints s call)
  | .allocate _ _ hint _ => inferInstanceAs (Decidable (hint.affinity = none))
  | .removeContainer _ _ => .isTrue trivial

instance (s : StateMemory) : (call : Call) → Decidable (HintKeepsGroups s call)
  | .allocate _ _ hint _ =>
    -- over the hint, not over all masks
    have := fun p [DecidablePred p] => Option.decidableForallMem (p := p) hint.affinity
    inferInstanceAs (Decidable (_ → _ → _))
  | .removeContainer _ _ => .isTrue trivial

/-- With the default hints, memory is conserved. -/
theorem memory_conserved (p : Policy) {tr : List Call} {s : StateMemory}
    (h : (manager p).ReachWhen DefaultHints tr s) : Conserved s := by
  obtain ⟨L, hL⟩ := accounts_of_reach (h.mono fun _ _ => DefaultHints.keepsGroups)
  exact hL.conserved

/-- A container on two nodes, another one on the same nodes, and one that does not fit. -/
theorem memory_conserved_group :
    ∃ s, (manager twoNodes).ReachWhen DefaultHints
        [allocateCall "p" 15 ⟨none, false⟩, allocateCall "q" 3 ⟨none, false⟩,
          allocateCall "r" 3 ⟨none, false⟩, .removeContainer "p" "c"] s ∧
      s.blocks = [⟨[0, 1], .memory, 3⟩] ∧ Conserved s := by
  obtain ⟨s, hs, hblocks⟩ := (manager twoNodes).exists_reachWhen DefaultHints (fun s => s.blocks)
    [allocateCall "p" 15 ⟨none, false⟩, allocateCall "q" 3 ⟨none, false⟩,
      allocateCall "r" 3 ⟨none, false⟩, .removeContainer "p" "c"]
    [⟨[0, 1], .memory, 3⟩] (by decide +kernel)
  exact ⟨s, hs, hblocks, memory_conserved twoNodes hs⟩

/-- As long as no hint cuts through a group in use, groups are kept apart, and a container has
its memory on its own nodes. -/
theorem groups_kept (p : Policy) {tr : List Call} {s : StateMemory}
    (h : (manager p).ReachWhen HintKeepsGroups tr s) : Disciplined s := by
  obtain ⟨L, hL⟩ := accounts_of_reach h
  exact hL.disciplined

/-- A container on two nodes, one with a hint for just these nodes, and the end of the first. -/
theorem groups_kept_joined :
    ∃ s, (manager twoNodes).ReachWhen HintKeepsGroups
        [allocateCall "p" 15 ⟨none, false⟩, allocateCall "q" 3 ⟨some 3, false⟩,
          .removeContainer "p" "c"] s ∧
      s.blocks = [⟨[0, 1], .memory, 3⟩] ∧ Disciplined s := by
  obtain ⟨s, hs, hblocks⟩ := (manager twoNodes).exists_reachWhen HintKeepsGroups (fun s => s.blocks)
    [allocateCall "p" 15 ⟨none, false⟩, allocateCall "q" 3 ⟨some 3, false⟩,
      .removeContainer "p" "c"]
    [⟨[0, 1], .memory, 3⟩] (by decide +kernel)
  exact ⟨s, hs, hblocks, groups_kept twoNodes hs⟩

/-- A hint with enough free memory takes a node out of a group in use. -/
theorem group_split_by_hint :
    ∃ s, (manager twoNodes).Reach
        [allocateCall "p" 15 ⟨none, false⟩, allocateCall "q" 5 ⟨some 2, false⟩] s ∧
      s.blocks = [⟨[1], .memory, 5⟩, ⟨[0, 1], .memory, 15⟩] ∧ ¬ Disciplined s := by
  obtain ⟨s, hs, hblocks⟩ := (manager twoNodes).exists_reach (fun s => s.blocks)
    [allocateCall "p" 15 ⟨none, false⟩, allocateCall "q" 5 ⟨some 2, false⟩]
    [⟨[1], .memory, 5⟩, ⟨[0, 1], .memory, 15⟩] (by decide +kernel)
  refine ⟨s, hs, hblocks, fun h => ?_⟩
  have hsame := h.same ⟨[1], .memory, 5⟩ (by simp [hblocks]) ⟨[0, 1], .memory, 15⟩
    (by simp [hblocks]) 1 (by simp) (by simp)
  cases hsame

end Kubernetes.Kubelet.MemoryManager
