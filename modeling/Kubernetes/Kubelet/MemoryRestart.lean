import Kubernetes.Kubelet.MemoryAccounts

/-! # Restarts of the memory manager

At a restart `validateState` books the blocks of the stored assignments anew, and compares the
result with the stored machine state. Both are booked from the first node of a group on, but
`RemoveContainer` also releases from the first node on, wherever the memory of the container
is.

1. `validate_replay`: the loops of `validateState` book all blocks.
2. `validateState_of_front`: a state is accepted if each group has its memory on its first
   nodes.
3. `restart_accepted`: this holds as long as every container that is removed has all memory of
   its group, or its group has memory on one node only.
4. `restart_rejected`: after the first of two containers on a group was removed, the kubelet
   does not start again.
-/

namespace Kubernetes.Kubelet.MemoryManager

open GoMap List

variable {d ms ms' : NUMANodeMap} {L : Ledger Int ResourceName} {b : Block}

/-! ## Replays -/

lemma exists_walk {missing : Failure}
    {body : Int → NUMANodeState → UInt64 → Except Failure (NUMANodeState × UInt64)}
    {nodes : List Int} (hnodup : nodes.Nodup) {amount : UInt64}
    (h : ∀ k ∈ nodes, ∃ st, ms.lookup k = some st ∧ ∀ a, ∃ r, body k st a = .ok r) :
    ∃ ms', walk missing body nodes ms amount = .ok ms' := by
  induction nodes generalizing ms amount with
  | nil => exact ⟨ms, rfl⟩
  | cons k nodes ih =>
    rw [nodup_cons] at hnodup
    obtain ⟨st, hst, hbody⟩ := h k mem_cons_self
    obtain ⟨⟨st', a'⟩, hr⟩ := hbody amount
    have hrest : ∀ k' ∈ nodes, ∃ st0, (ms.insert k st').lookup k' = some st0 ∧
        ∀ a, ∃ r, body k' st0 a = .ok r := by
      intro k' hk'
      rw [lookup_insert_if, if_neg]
      · exact h k' (mem_cons_of_mem _ hk')
      · rintro rfl
        exact hnodup.1 hk'
    obtain ⟨ms', hms'⟩ : ∃ ms', walk missing body nodes (ms.insert k st') a' = .ok ms' :=
      ih hnodup.2 hrest
    refine ⟨ms', ?_⟩
    unfold walk
    rw [hst]
    exact bind_eq_ok.2 ⟨(st', a'), hr, hms'⟩

lemma walk_mono {missing missing' : Failure}
    {body body' : Int → NUMANodeState → UInt64 → Except Failure (NUMANodeState × UInt64)}
    (hbody : ∀ k st a r, body k st a = .ok r → body' k st a = .ok r) {nodes : List Int}
    {amount : UInt64} (h : walk missing body nodes ms amount = .ok ms') :
    walk missing' body' nodes ms amount = .ok ms' := by
  induction nodes generalizing ms amount with
  | nil => exact h
  | cons k nodes ih =>
    unfold walk at h ⊢
    cases hst : ms.lookup k with
    | none =>
      rw [hst] at h
      cases h
    | some st =>
      rw [hst] at h
      obtain ⟨r, hr, hrest⟩ := bind_eq_ok.1 h
      exact bind_eq_ok.2 ⟨r, hbody k st amount r hr, ih hrest⟩

variable {pod c : String} {k : Int} {st : NUMANodeState}

/-- A node that has the table of a block is booked as by `Allocate`. -/
lemma validateNode_eq {t : MemoryTable} (h : st.memoryMap.lookup b.type = some t) (a : UInt64) :
    validateNode pod c b k st a = allocateNode b k st a := by
  unfold validateNode allocateNode
  dsimp only
  rw [h]
  dsimp only
  split
  · rfl
  · rfl

lemma validateNode_ok {a : UInt64} {r : NUMANodeState × UInt64}
    (h : validateNode pod c b k st a = .ok r) :
    allocateNode b k st a = .ok r := by
  cases ht : st.memoryMap.lookup b.type with
  | none =>
    unfold validateNode at h
    dsimp only at h
    rw [ht] at h
    cases h
  | some t => rwa [validateNode_eq ht] at h

lemma exists_validateNode {t : MemoryTable} (h : st.memoryMap.lookup b.type = some t)
    (a : UInt64) :
    ∃ r, validateNode pod c b k st a = .ok r := by
  unfold validateNode
  dsimp only
  rw [h]
  dsimp only
  split
  · exact ⟨_, rfl⟩
  · exact ⟨_, rfl⟩

/-- A block whose nodes have its table is booked. -/
lemma Represents.validateBlock (h : Represents d ms L) (hnodup : b.numaAffinity.Nodup)
    (hknown : ∀ k ∈ b.numaAffinity, (tableAt d k b.type).isSome) (pod c : String) :
    ∃ ms', validateBlock pod c ms b = .ok ms' ∧
      Represents d ms' (L.place (capacity d) b.holding) := by
  have hnodes : ∀ k ∈ b.numaAffinity, ∃ st, ms.lookup k = some st ∧
      ∀ a, ∃ r, validateNode pod c b k st a = .ok r := by
    intro k hk
    have htable : (tableAt ms k b.type).isSome := by
      rw [h.tables, Option.isSome_map]
      exact hknown k hk
    obtain ⟨t, ht⟩ := Option.isSome_iff_exists.1 htable
    obtain ⟨st, hst, ht⟩ := Option.bind_eq_some_iff.1 ht
    exact ⟨st, hst, exists_validateNode ht⟩
  obtain ⟨ms', hms'⟩ : ∃ ms', MemoryManager.validateBlock pod c ms b = .ok ms' :=
    exists_walk hnodup hnodes
  refine ⟨ms', hms', h.allocateBlock hnodup ?_⟩
  exact walk_mono (fun _ _ _ _ => validateNode_ok) hms'

lemma Represents.validateBlocks {blocks : List Block} (h : Represents d ms L)
    (hblocks : ∀ b ∈ blocks, b.numaAffinity.Nodup ∧ ∀ k ∈ b.numaAffinity, (tableAt d k b.type).isSome)
    (pod c : String) :
    ∃ ms', blocks.foldlM (MemoryManager.validateBlock pod c) ms = .ok ms' ∧
      Represents d ms' ((blocks.map Block.holding).foldl (Ledger.place (capacity d)) L) := by
  induction blocks generalizing ms L with
  | nil => exact ⟨ms, rfl, h⟩
  | cons b blocks ih =>
    obtain ⟨hnodup, hknown⟩ := hblocks b mem_cons_self
    obtain ⟨ms1, hms1, h1⟩ := h.validateBlock hnodup hknown pod c
    obtain ⟨ms', hms', h'⟩ := ih h1 (forall_mem_cons.1 hblocks).2
    refine ⟨ms', ?_, h'⟩
    rw [foldlM_cons]
    exact bind_eq_ok.2 ⟨ms1, hms1, hms'⟩

/-- The validation of a checkpoint books its blocks again. -/
theorem validate_replay {entries : List (String × String × List Block)} (h : Represents d ms L)
    (hblocks : ∀ e ∈ entries, ∀ b ∈ e.2.2, b.numaAffinity.Nodup ∧
      ∀ k ∈ b.numaAffinity, (tableAt d k b.type).isSome) :
    ∃ ms', entries.foldlM (fun ms e => e.2.2.foldlM (validateBlock e.1 e.2.1) ms) ms = .ok ms' ∧
      Represents d ms' (((entries.flatMap fun e => e.2.2).map Block.holding).foldl
        (Ledger.place (capacity d)) L) := by
  induction entries generalizing ms L with
  | nil => exact ⟨ms, rfl, h⟩
  | cons e entries ih =>
    obtain ⟨ms1, hms1, h1⟩ := h.validateBlocks (hblocks e mem_cons_self) e.1 e.2.1
    obtain ⟨ms', hms', h'⟩ := ih h1 (forall_mem_cons.1 hblocks).2
    refine ⟨ms', ?_, ?_⟩
    · rw [foldlM_cons]
      exact bind_eq_ok.2 ⟨ms1, hms1, hms'⟩
    · rw [flatMap_cons, map_append, foldl_append]
      exact h'

/-! ## Comparing machine states -/

/-- Machine states that have booked the same are equal for `areMachineStatesEqual`. -/
lemma areMachineStatesEqual_of_represents (h : Represents d ms L) (h' : Represents d ms' L) :
    areMachineStatesEqual ms ms' = true := by
  unfold areMachineStatesEqual
  rw [Bool.and_eq_true, decide_eq_true_eq]
  refine ⟨length_keys_eq fun k => (h.nodes k).trans (h'.nodes k).symm, ?_⟩
  rw [all_eq_true]
  rintro ⟨k, st⟩ hmem
  have hst : ms.lookup k = some st := AList.mem_lookup_iff.2 hmem
  have hsome : (ms'.lookup k).isSome := by
    rw [h'.nodes, ← h.nodes, hst]
    rfl
  obtain ⟨st', hst'⟩ := Option.isSome_iff_exists.1 hsome
  have hheader := Prod.mk.inj ((h.headers k st hst).trans (h'.headers k st' hst').symm)
  have htables : ∀ r, st.memoryMap.lookup r = st'.memoryMap.lookup r := by
    intro r
    rw [← tableAt_of_lookup hst, ← tableAt_of_lookup hst', h.tables, h'.tables]
  simp only [hst', Option.elim_some]
  unfold areNodeStatesEqual areGroupsEqual
  rw [hheader.1, hheader.2, length_keys_eq fun r => congrArg Option.isSome (htables r)]
  simp only [decide_true, Bool.true_and, all_eq_true, decide_eq_true_eq]
  rintro ⟨r, t⟩ ht
  rw [← htables]
  exact AList.mem_lookup_iff.2 ht

section

variable {p : Policy} {s s' : StateMemory}

/-- Groups that have their memory on their first nodes are booked as they are. -/
theorem validateState_of_front (h : Accounts p L s)
    (hfront : L.Front (capacity (getDefaultMachineState p)) (s.blocks.map Block.holding))
    (hempty : s.machineState.keys = [] → s.assignments.keys = []) (order : RangeOrder) :
    validateState p order s = .ok s := by
  unfold validateState
  by_cases hkeys : s.machineState.keys = []
  · -- a machine without nodes
    rw [if_pos hkeys, if_neg (not_not.2 (hempty hkeys))]
    have hlength := length_keys_eq h.represents.nodes
    rw [hkeys, length_nil, eq_comm, length_eq_zero_iff] at hlength
    have heq : getDefaultMachineState p = s.machineState :=
      AList.ext ((map_eq_nil_iff.1 hlength).trans (map_eq_nil_iff.1 hkeys).symm)
    rw [heq]
    rfl
  rw [if_neg hkeys]
  set entries := NestedMap.inOrder s.assignments order.pods order.containers
  have hperm : (entries.flatMap fun e => e.2.2).Perm s.blocks := by
    rw [flatMap_def]
    exact (NestedMap.values_inOrder s.assignments order.pods order.containers).flatten
  have hblocks : ∀ e ∈ entries, ∀ b ∈ e.2.2, b.numaAffinity.Nodup ∧
      ∀ k ∈ b.numaAffinity, (tableAt (getDefaultMachineState p) k b.type).isSome := by
    intro e he b hb
    have hmem : b ∈ s.blocks := hperm.mem_iff.1 (mem_flatMap.2 ⟨e, he, hb⟩)
    exact ⟨h.nodup hmem, h.known b hmem⟩
  obtain ⟨ms', hms', hrep⟩ := validate_replay (represents_default p) hblocks
  -- the ledger of the replay is the one of the state
  have hholdings : ((entries.flatMap fun e : String × String × List Block => e.2.2).map
      Block.holding ++ []).Perm (s.blocks.map Block.holding) := by
    rw [append_nil]
    exact hperm.map Block.holding
  have hreplay := h.sound.replay hholdings .empty fun c hc => absurd hc not_mem_nil
  rw [← h.sound.packed_unique hreplay.1 hfront hreplay.2] at hrep
  refine bind_eq_ok.2 ⟨ms', hms', ?_⟩
  rw [if_pos (areMachineStatesEqual_of_represents h.represents hrep)]
  rfl

/-! ## Runs -/

/-- A container is removed only if each of its blocks is all that its group has of the resource,
or the group has the resource on one node. -/
def RemovesLoose (s : StateMemory) : Call → Prop
  | .allocate _ _ hint _ => hint.affinity = none
  | .removeContainer podUID containerName =>
    ∀ blocks, s.getMemoryBlocks podUID containerName = some blocks → ∀ b ∈ blocks,
      b.size.toNat = 0 ∨
      (b.numaAffinity.map fun k => reservedAt s.machineState k b.type).sum = b.size.toNat ∨
      ∀ i ∈ b.numaAffinity, ∀ j ∈ b.numaAffinity, 0 < reservedAt s.machineState i b.type →
        0 < reservedAt s.machineState j b.type → i = j

variable {call : Call}

lemma RemovesLoose.defaultHints (h : RemovesLoose s call) : DefaultHints s call := by
  cases call with
  | allocate pod container hint order => exact h
  | removeContainer podUID containerName => exact trivial

lemma RemovesLoose.looseCall (h : RemovesLoose s call) (hL : Accounts p L s) :
    Accounts.LooseCall L s call := by
  cases call with
  | allocate pod container hint order => exact trivial
  | removeContainer podUID containerName =>
    intro blocks hblocks b hb
    have hloose := h blocks hblocks b hb
    simp only [hL.reservedAt_eq] at hloose
    exact hloose

lemma getDefaultHint_empty {requested : GoMap ResourceName UInt64} (hms : ms.keys = [])
    {hint : Option Hint} : getDefaultHint ms requested ≠ .ok hint := by
  intro h
  have hhints : calculateHints ms requested = .ok ∅ := by
    unfold calculateHints
    rw [hms]
    rfl
  unfold getDefaultHint at h
  rw [hhints] at h
  cases h

/-- A machine without nodes has no assignments. -/
lemma no_assignments_step (hok : RemovesLoose s call)
    (h : s.machineState.keys = [] → s.assignments.keys = []) {L' : Ledger Int ResourceName}
    (hL : Accounts p L s) (hL' : Accounts p L' s') (hstep : (manager p).step s call = some s') :
    s'.machineState.keys = [] → s'.assignments.keys = [] := by
  intro hkeys'
  have hkeys : s.machineState.keys = [] := by
    have hlength := length_keys_eq fun k =>
      (hL.represents.nodes k).trans (hL'.represents.nodes k).symm
    rwa [hkeys', length_nil, length_eq_zero_iff] at hlength
  cases call with
  | allocate pod container hint order =>
    rcases complete_eq_some hstep with hdone | rfl
    · rcases allocate_cases hdone with rfl | ⟨requested, best, ms', -, -, -, hbest, -, -⟩
      · exact h hkeys
      unfold bestHint startHint at hbest
      rw [show hint.affinity = none from hok] at hbest
      obtain ⟨first, hfirst, -⟩ := bind_eq_ok.1 hbest
      obtain ⟨default, hdef, -⟩ := bind_eq_ok.1 hfirst
      exact absurd hdef (getDefaultHint_empty hkeys)
    · exact h hkeys
  | removeContainer podUID containerName =>
    rcases complete_eq_some hstep with hdone | rfl
    · rcases removeContainer_cases hdone with rfl | ⟨blocks, ms', hblocks, -, -⟩
      · exact h hkeys
      -- there is no container to remove
      have hnone : s.getMemoryBlocks podUID containerName = none := by
        have hlookup : s.assignments.lookup podUID = none := by
          rw [AList.lookup_eq_none, AList.mem_keys, h hkeys]
          exact not_mem_nil
        unfold StateMemory.getMemoryBlocks NestedMap.get
        rw [hlookup]
        rfl
      rw [hnone] at hblocks
      cases hblocks
    · exact h hkeys

end

/-- As long as only loose containers are removed, the kubelet starts again with every state. -/
theorem restart_accepted (p : Policy) {tr : List Call} {s : StateMemory}
    (h : (manager p).ReachWhen RemovesLoose tr s) (order : RangeOrder) :
    validateState p order s = .ok s := by
  have hinv := h.invariant (fun s => ∃ L, Accounts p L s ∧
      L.Front (capacity (getDefaultMachineState p)) (s.blocks.map Block.holding) ∧
      (s.machineState.keys = [] → s.assignments.keys = []))
    ⟨Ledger.empty, accounts_start p, fun b hb => absurd hb not_mem_nil, fun _ => rfl⟩ ?_
  · obtain ⟨L, hL, hfront, hempty⟩ := hinv
    exact validateState_of_front hL hfront hempty order
  · rintro s call s' ⟨L, hL, hfront, hempty⟩ hok hstep
    obtain ⟨L', hL', hfront'⟩ := hL.step hok.defaultHints.keepsGroups hstep
    exact ⟨L', hL', hfront' hfront (hok.looseCall hL), no_assignments_step hok hempty hL hL' hstep⟩

instance (s : StateMemory) : (call : Call) → Decidable (RemovesLoose s call)
  | .allocate _ _ hint _ => inferInstanceAs (Decidable (hint.affinity = none))
  | .removeContainer podUID containerName =>
    match h : s.getMemoryBlocks podUID containerName with
    | none => .isTrue fun _ hblocks => absurd (h.symm.trans hblocks) nofun
    | some blocks =>
      decidable_of_iff (∀ b ∈ blocks, b.size.toNat = 0 ∨
        (b.numaAffinity.map fun k => reservedAt s.machineState k b.type).sum = b.size.toNat ∨
        ∀ i ∈ b.numaAffinity, ∀ j ∈ b.numaAffinity, 0 < reservedAt s.machineState i b.type →
          0 < reservedAt s.machineState j b.type → i = j)
        ⟨fun hall _ hblocks' => Option.some.inj (h.symm.trans hblocks') ▸ hall,
          fun hall => hall blocks h⟩

/-- The order in which the maps are kept. -/
def RangeOrder.asKept : RangeOrder := ⟨⟨id, fun _ => .refl _⟩, fun _ => ⟨id, fun _ => .refl _⟩⟩

/-- A container on two nodes is removed before the next one comes. -/
theorem restart_accepted_in_turn :
    ∃ s, (manager twoNodes).ReachWhen RemovesLoose
        [allocateCall "p" 15 ⟨none, false⟩, .removeContainer "p" "c",
          allocateCall "q" 13 ⟨none, false⟩] s ∧
      s.blocks = [⟨[0, 1], .memory, 13⟩] ∧ validateState twoNodes .asKept s = .ok s := by
  obtain ⟨s, hs, hblocks⟩ := (manager twoNodes).exists_reachWhen RemovesLoose (fun s => s.blocks)
    [allocateCall "p" 15 ⟨none, false⟩, .removeContainer "p" "c", allocateCall "q" 13 ⟨none, false⟩]
    [⟨[0, 1], .memory, 13⟩] (by decide +kernel)
  exact ⟨s, hs, hblocks, restart_accepted twoNodes hs .asKept⟩

def failure : Except Failure StateMemory → Option Failure
  | .ok _ => none
  | .error e => some e

/-- The first of two containers on a group is removed. -/
theorem restart_rejected :
    ∃ s, (manager twoNodes).ReachWhen DefaultHints
        [allocateCall "p" 15 ⟨none, false⟩, allocateCall "q" 3 ⟨none, false⟩,
          .removeContainer "p" "c"] s ∧
      s.blocks = [⟨[0, 1], .memory, 3⟩] ∧
      (reservedAt s.machineState 0 .memory, reservedAt s.machineState 1 .memory) = (0, 3) ∧
      failure (validateState twoNodes .asKept s) =
        some (.error "[memorymanager] the expected machine state is different from the real one") := by
  obtain ⟨s, hs, h⟩ := (manager twoNodes).exists_reachWhen DefaultHints
    (fun s => (s.blocks, (reservedAt s.machineState 0 .memory, reservedAt s.machineState 1 .memory),
      failure (validateState twoNodes .asKept s)))
    [allocateCall "p" 15 ⟨none, false⟩, allocateCall "q" 3 ⟨none, false⟩, .removeContainer "p" "c"]
    ([⟨[0, 1], .memory, 3⟩], (0, 3),
      some (.error "[memorymanager] the expected machine state is different from the real one"))
    (by decide +kernel)
  rw [Prod.mk.injEq, Prod.mk.injEq] at h
  exact ⟨s, hs, h⟩

end Kubernetes.Kubelet.MemoryManager
