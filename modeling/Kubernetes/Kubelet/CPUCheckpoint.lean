import Kubernetes.Kubelet.CPUManager

/-! # Restarts of the CPU manager

A call of the policy writes the state in several steps, and the checkpoint file after each of
them; the kubelet may stop after any of these writes. `validateState` decides at the restart
whether it goes on.

1. `restoreState_storeState`: what was stored is restored.
2. `accepted_storeState_iff`: which states a restart accepts.
3. `checkpoints_accepted_iff`: every file that was ever written can be restored only in the
   runs in which no exclusive CPU is ever given out. `Allocate` takes the CPUs out of the
   shared pool with one write and records them with the next; after the first one they are
   in neither.
-/

namespace Kubernetes.Kubelet.CPUManager

open GoMap Finset

variable {n : Node}

/-- The kubelet can start from this checkpoint. -/
def Accepted (n : Node) (cp : Checkpoint) : Prop := (restart n cp).isSome = true

instance (cp : Checkpoint) : Decidable (Accepted n cp) :=
  inferInstanceAs (Decidable ((restart n cp).isSome = true))

/-! ## Restoring -/

/-- The CPUs of a state have numbers that can be parsed. -/
def InRange (s : StateMemory) : Prop :=
  ∀ cset ∈ s.defaultCPUSet :: assignedSets s, ∀ c ∈ cset, c < 2 ^ 63

variable {s : StateMemory}

theorem restoreState_storeState (h : InRange s) :
    restoreState (storeState s) = .ok s := by
  unfold InRange at h
  rw [List.forall_mem_cons] at h
  have hassign : mapValM (mapValM CPUSet.parse)
      (mapVal (mapVal CPUSet.string) s.assignments) = some s.assignments := by
    refine mapValM_mapVal fun pod hpod => mapValM_mapVal fun container hc => ?_
    refine CPUSet.parse_string (h.2 _ ?_)
    exact List.mem_flatMap.2 ⟨pod, hpod, List.mem_map_of_mem hc⟩
  unfold restoreState storeState
  rw [if_neg (by simp)]
  simp only [CPUSet.parse_string h.1, hassign]

lemma mem_assignedSets {cset : CPUSet} :
    cset ∈ assignedSets s ↔ ∃ pod c, s.getCPUSet pod c = some cset :=
  NestedMap.mem_values

lemma mem_foldl_union {sets : List CPUSet} {init : CPUSet} {cpu : Nat} :
    cpu ∈ sets.foldl (· ∪ ·) init ↔ cpu ∈ init ∨ ∃ cset ∈ sets, cpu ∈ cset := by
  induction sets generalizing init with
  | nil => simp
  | cons cset sets ih =>
    rw [List.foldl_cons, ih, mem_union, List.exists_mem_cons_iff, or_assoc]

/-- The states that a restart accepts: the empty one, and those that account for every CPU. -/
theorem accepted_storeState_iff (h : InRange s) :
    Accepted n (storeState s) ↔
      (s.defaultCPUSet = ∅ ∧ s.assignments.keys = []) ∨
      (s.defaultCPUSet ≠ ∅ ∧ n.reserved ⊆ s.defaultCPUSet ∧
        (∀ pod c cset, s.getCPUSet pod c = some cset → Disjoint s.defaultCPUSet cset) ∧
        ∀ cpu, cpu ∈ n.topology.cpus ↔
          cpu ∈ s.defaultCPUSet ∨ ∃ pod c cset, s.getCPUSet pod c = some cset ∧ cpu ∈ cset) := by
  have hunion : (assignedSets s).foldl (· ∪ ·) s.defaultCPUSet = n.topology.cpus ↔
      ∀ cpu, cpu ∈ n.topology.cpus ↔
        cpu ∈ s.defaultCPUSet ∨ ∃ pod c cset, s.getCPUSet pod c = some cset ∧ cpu ∈ cset := by
    rw [eq_comm, Finset.ext_iff]
    refine forall_congr' fun cpu => ?_
    rw [mem_foldl_union]
    refine iff_congr Iff.rfl (or_congr_right ?_)
    constructor
    · rintro ⟨cset, hset, hcpu⟩
      obtain ⟨pod, c, hs⟩ := mem_assignedSets.1 hset
      exact ⟨pod, c, cset, hs, hcpu⟩
    · rintro ⟨pod, c, cset, hs, hcpu⟩
      exact ⟨cset, mem_assignedSets.2 ⟨pod, c, hs⟩, hcpu⟩
  have hdisj : (assignedSets s).any (fun cset => s.defaultCPUSet ∩ cset ≠ ∅) = false ↔
      ∀ pod c cset, s.getCPUSet pod c = some cset → Disjoint s.defaultCPUSet cset := by
    rw [List.any_eq_false]
    constructor
    · intro hall pod c cset hs
      have hset := hall cset (mem_assignedSets.2 ⟨pod, c, hs⟩)
      rwa [decide_eq_true_eq, not_not, ← disjoint_iff_inter_eq_empty] at hset
    · intro hall cset hset
      obtain ⟨pod, c, hs⟩ := mem_assignedSets.1 hset
      rw [decide_eq_true_eq, not_not, ← disjoint_iff_inter_eq_empty]
      exact hall pod c cset hs
  -- the checks of `validateState`, in their order
  unfold Accepted restart
  rw [restoreState_storeState h]
  simp only [validateState]
  by_cases hempty : s.defaultCPUSet = ∅
  · rw [if_pos hempty]
    by_cases hkeys : s.assignments.keys = []
    · simp [hempty, hkeys, Except.toOption]
    · simp [hempty, hkeys, Except.toOption]
  rw [if_neg hempty, ← hdisj, ← hunion, ← inter_eq_left]
  by_cases hres : n.reserved ∩ s.defaultCPUSet = n.reserved
  · rw [if_neg (not_not.2 hres)]
    cases hany : (assignedSets s).any fun cset => s.defaultCPUSet ∩ cset ≠ ∅ with
    | true => simp [hempty, Except.toOption]
    | false =>
      by_cases hall : (assignedSets s).foldl (· ∪ ·) s.defaultCPUSet = n.topology.cpus
      · simp [hempty, hres, hall, Except.toOption]
      · simp [hempty, hall, Except.toOption]
  · simp [hempty, hres, Except.toOption]

/-! ## Restarts within calls -/

/-- A call that gives out no exclusive CPU. -/
def NoneGiven (n : Node) (m : Manager) : Call → Prop
  | .allocate podUID container _ =>
    guaranteedCPUs (n.pods podUID) container = 0 ∨
      (getAllocatableCPUs n m.state.cache).card < guaranteedCPUs (n.pods podUID) container
  | .removeContainer _ _ => True

instance (m : Manager) : (call : Call) → Decidable (NoneGiven n m call)
  | .allocate podUID container _ =>
    inferInstanceAs (Decidable (guaranteedCPUs (n.pods podUID) container = 0 ∨
      (getAllocatableCPUs n m.state.cache).card < guaranteedCPUs (n.pods podUID) container))
  | .removeContainer _ _ => .isTrue trivial

lemma topology_inter_allocatable :
    n.topology.cpus ∩ (getAllocatableCPUs n (start n).state.cache ∪ ∅) =
      getAllocatableCPUs n (start n).state.cache := by
  rw [union_empty]
  exact inter_eq_right.2 sdiff_subset

/-- Nothing is assigned at the start. -/
lemma getCPUSet_start (pod c : String) : (start n).state.cache.getCPUSet pod c = none ∧
    ((start n).cpusToReuse.lookup pod).getD ∅ = ∅ := ⟨rfl, rfl⟩

lemma inRange_shared {d : CPUSet} (h : ∀ c ∈ d, c < 2 ^ 63) :
    InRange (StateMemory.new.setDefaultCPUSet d) := by
  intro s hs c hc
  rcases List.mem_cons.1 hs with rfl | hs
  · exact h c hc
  · cases hs

/-- Such a call changes nothing in the initial state. -/
lemma step_start_of_noneGiven {call : Call} (h : NoneGiven n (start n) call) :
    (manager n).step (start n) call = some (start n) := by
  cases call with
  | removeContainer podUID containerName => rfl
  | allocate podUID container hint =>
    refine congrArg some ?_
    unfold allocate
    simp only
    split
    · rename_i hnum
      have hlt := h.resolve_left hnum
      rw [← topology_inter_allocatable] at hlt
      obtain ⟨e, he⟩ := allocateCPUs_error hint.affinity hlt
      rw [(getCPUSet_start _ _).1, (getCPUSet_start _ container.name).2]
      rw [he]
    · rfl

/-- Any other call writes a checkpoint that is not accepted. -/
lemma exists_rejected {call : Call} (h : ¬ NoneGiven n (start n) call) {m : Manager}
    (hstep : (manager n).step (start n) call = some m) :
    ∃ cp ∈ m.state.stored, ¬ Accepted n cp := by
  cases call with
  | removeContainer podUID containerName => exact absurd trivial h
  | allocate podUID container hint =>
    simp only [NoneGiven, not_or, not_lt] at h
    obtain ⟨hnum, hle⟩ := h
    rw [← topology_inter_allocatable] at hle
    obtain ⟨cset, hok, hsub, hcard⟩ := allocateCPUs_ok hint.affinity hle
    rw [topology_inter_allocatable] at hsub
    have hcpus : cset ⊆ n.topology.cpus := hsub.trans sdiff_subset
    have hnonempty : cset.Nonempty := card_pos.1 (by omega)
    -- the two writes of the call
    let taken : StateMemory := (start n).state.cache.setDefaultCPUSet (n.topology.cpus \ cset)
    let recorded : StateMemory := taken.setCPUSet (n.pods podUID).uid container.name cset
    have hm : m.state.stored = (start n).state.stored ++ [storeState taken] ++ [storeState recorded] := by
      have hm' := Option.some.inj hstep
      rw [← hm']
      show (allocate n (start n) (n.pods podUID) container hint).1.state.stored = _
      unfold allocate
      rw [(getCPUSet_start _ _).1, (getCPUSet_start _ container.name).2]
      rw [if_pos hnum, hok]
      rfl
    have hrange : ∀ c ∈ n.topology.cpus \ cset, c < 2 ^ 63 := fun c hc =>
      n.topology.isInt c (mem_sdiff.1 hc).1
    rw [hm]
    by_cases hrest : n.topology.cpus \ cset = ∅
    · -- the shared pool is empty: the record of the container comes without it
      refine ⟨storeState recorded, by simp, fun hacc => ?_⟩
      have hin : InRange recorded := by
        intro s hs c hc
        rcases List.mem_cons.1 hs with rfl | hs
        · exact hrange c hc
        obtain ⟨pod, name, hget⟩ := mem_assignedSets.1 hs
        rw [getCPUSet_setCPUSet] at hget
        split at hget
        · cases hget
          exact n.topology.isInt c (hcpus hc)
        · cases hget
      rcases (accepted_storeState_iff hin).1 hacc with ⟨-, hkeys⟩ | ⟨hdef, -⟩
      · have hmem : (n.pods podUID).uid ∈ recorded.assignments.keys :=
          AList.mem_keys.1 ((AList.mem_insert _).2 (.inl rfl))
        rw [hkeys] at hmem
        cases hmem
      · exact hdef hrest
    · -- the CPUs are in neither part of the state
      refine ⟨storeState taken, by simp, fun hacc => ?_⟩
      rcases (accepted_storeState_iff (inRange_shared hrange)).1 hacc with ⟨hdef, -⟩ | ⟨-, -, -, hall⟩
      · exact hrest hdef
      obtain ⟨cpu, hcpu⟩ := hnonempty
      rcases (hall cpu).1 (hcpus hcpu) with hd | ⟨pod, name, s, hget, -⟩
      · exact (mem_sdiff.1 hd).2 hcpu
      · cases hget

lemma start_accepted_iff :
    (∀ cp ∈ (start n).state.stored, Accepted n cp) ↔
      n.topology.cpus = ∅ ∨ n.reserved ⊆ n.topology.cpus := by
  have hstored : (start n).state.stored =
      [storeState .new, storeState (StateMemory.new.setDefaultCPUSet n.topology.cpus)] := rfl
  have hnew : InRange .new := @inRange_shared ∅ fun c hc => by cases hc
  have hnone : ∀ pod c, (StateMemory.new.setDefaultCPUSet n.topology.cpus).getCPUSet pod c = none :=
    fun _ _ => rfl
  rw [hstored, List.forall_mem_cons, List.forall_mem_singleton, accepted_storeState_iff hnew,
    accepted_storeState_iff (@inRange_shared n.topology.cpus n.topology.isInt)]
  constructor
  · rintro ⟨-, ⟨hempty, -⟩ | ⟨-, hreserved, -⟩⟩
    · exact .inl hempty
    · exact .inr hreserved
  intro h
  refine ⟨.inl ⟨rfl, rfl⟩, ?_⟩
  by_cases hempty : n.topology.cpus = ∅
  · exact .inl ⟨hempty, rfl⟩
  refine .inr ⟨hempty, h.resolve_left hempty, fun pod c cset hs => ?_, fun cpu => ?_⟩
  · rw [hnone] at hs
    cases hs
  · simp only [hnone]
    show _ ↔ cpu ∈ n.topology.cpus ∨ _
    simp

lemma eq_start {tr : List Call} {m : Manager} (h : (manager n).ReachWhen (NoneGiven n) tr m) :
    m = start n := by
  refine h.invariant (· = start n) rfl ?_
  rintro _ call m' rfl hok hstep
  rw [step_start_of_noneGiven hok] at hstep
  exact (Option.some.inj hstep).symm

lemma stored_subset {m m' : Manager} {call : Call} (h : (manager n).step m call = some m') :
    m.state.stored ⊆ m'.state.stored := by
  cases call with
  | allocate podUID container hint =>
    obtain rfl := Option.some.inj h
    rcases allocate_cases (n := n) m (n.pods podUID) container hint with
      heq | ⟨cset, -, heq⟩ | ⟨cset, -, -, -, -, heq⟩
    · rw [heq]
      exact List.Subset.refl _
    · rw [heq]
      exact List.Subset.refl _
    · rw [heq]
      exact List.Subset.trans (List.subset_append_left _ _) (List.subset_append_left _ _)
  | removeContainer podUID containerName =>
    obtain rfl := Option.some.inj h
    rcases removeContainer_cases m podUID containerName with ⟨-, heq⟩ | ⟨cset, -, heq⟩
    · rw [heq]
      exact List.Subset.refl _
    · rw [heq]
      exact List.Subset.trans (List.subset_append_left _ _) (List.subset_append_left _ _)

/-- In a run, all checkpoints are accepted at a restart exactly if the reserved CPUs exist and
no call gives out exclusive CPUs. -/
theorem checkpoints_accepted_iff (n : Node) {tr : List Call} {m : Manager}
    (h : (manager n).Reach tr m) :
    (∀ cp ∈ m.state.stored, Accepted n cp) ↔
      (n.topology.cpus = ∅ ∨ n.reserved ⊆ n.topology.cpus) ∧
        (manager n).ReachWhen (NoneGiven n) tr m := by
  constructor
  · intro hacc
    induction h with
    | init => exact ⟨start_accepted_iff.1 hacc, .init⟩
    | step call _ hstep ih =>
      obtain ⟨hreserved, hrun⟩ := ih fun cp hcp => hacc cp (stored_subset hstep hcp)
      refine ⟨hreserved, hrun.step call ?_ hstep⟩
      obtain rfl := eq_start hrun
      by_contra hgiven
      obtain ⟨cp, hcp, hrej⟩ := exists_rejected hgiven hstep
      exact hrej (hacc cp hcp)
  · rintro ⟨hreserved, hrun⟩
    rw [eq_start hrun]
    exact start_accepted_iff.2 hreserved

/-- A request for more CPUs than there are is refused. -/
theorem checkpoints_accepted_refused :
    ∃ m, (manager fourCPUs).Reach [.allocate "p" ⟨"app", AList.insert .cpu ⟨5000000000, true⟩ ∅, ∅⟩ ⟨none, true⟩,
        .removeContainer "p" "app"] m ∧
      ∀ cp ∈ m.state.stored, Accepted fourCPUs cp := by
  obtain ⟨m, hrun, -⟩ := (manager fourCPUs).exists_reachWhen (NoneGiven fourCPUs)
    (fun m => m.state.stored.length)
    [.allocate "p" ⟨"app", AList.insert .cpu ⟨5000000000, true⟩ ∅, ∅⟩ ⟨none, true⟩, .removeContainer "p" "app"] 2
    (by decide +kernel)
  exact ⟨m, hrun.reach, (checkpoints_accepted_iff fourCPUs hrun.reach).2 ⟨.inr (by decide), hrun⟩⟩

/-- The kubelet cannot start from the first checkpoint of the first allocation. -/
theorem checkpoint_rejected_while_allocating :
    ∃ m, (manager fourCPUs).Reach [.allocate "p" (container "app") ⟨none, true⟩] m ∧
      m.state.stored.map (fun cp => decide (Accepted fourCPUs cp)) = [true, true, false, true] := by
  exact (manager fourCPUs).exists_reach _ _ _ (by decide +kernel)

end Kubernetes.Kubelet.CPUManager
