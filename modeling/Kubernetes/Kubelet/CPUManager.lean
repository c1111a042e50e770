import Kubernetes.Kubelet.CPUTopology
import Kubernetes.Kubelet.Pod
import Kubernetes.Kubelet.TopologyManager
import Kubernetes.NestedMap

/-! # Exclusive CPUs

A model of the static policy of the CPU manager (`policy_static.go`) on a checkpointed state
(`state_checkpoint.go`): every write to the state is followed by a write of the checkpoint
file, of which the model keeps the whole sequence.

1. `allocate_cases` and `removeContainer_cases`: what the two calls can do.
2. `cpus_exclusive`: as long as no container is removed whose CPUs another container of its
   pod also has, and no application container is given CPUs of another one through the
   reuse of CPUs within a pod, the shared pool and the assigned sets partition the machine
   up to the sharing between a pod's init containers and its other containers.
3. `cpus_shared_after_init_removed`: removing an init container hands the CPUs of the
   application container that reuses them to the shared pool.
-/

namespace Kubernetes.Kubelet.CPUManager

open GoMap Finset

/-! ## The state -/

structure StateMemory where
  assignments : GoMap String (GoMap String CPUSet)
  defaultCPUSet : CPUSet
deriving DecidableEq

namespace StateMemory

def new : StateMemory := ⟨∅, ∅⟩

variable (s : StateMemory) (podUID containerName : String)

def getCPUSet : Option CPUSet :=
  (s.assignments.lookup podUID).bind fun containers => containers.lookup containerName

def setCPUSet (cset : CPUSet) : StateMemory :=
  let containers := (s.assignments.lookup podUID).getD ∅
  { s with assignments := s.assignments.insert podUID (containers.insert containerName cset) }

def setDefaultCPUSet (cset : CPUSet) : StateMemory :=
  { s with defaultCPUSet := cset }

def delete : StateMemory :=
  let containers := ((s.assignments.lookup podUID).getD ∅).erase containerName
  { s with
    assignments :=
      if containers.keys = [] then s.assignments.erase podUID
      else s.assignments.insert podUID containers }

end StateMemory

/-- `CPUManagerCheckpointV2` -/
structure Checkpoint where
  policyName : String
  defaultCPUSet : List Char
  entries : GoMap String (GoMap String (List Char))
deriving DecidableEq

def policyStatic : String := "static"

/-- What `storeState` writes. -/
def storeState (cache : StateMemory) : Checkpoint where
  policyName := policyStatic
  defaultCPUSet := cache.defaultCPUSet.string
  entries := mapVal (mapVal CPUSet.string) cache.assignments

/-- `stateCheckpoint`, with all checkpoints that were written, the last one being the file. -/
structure StateCheckpoint where
  cache : StateMemory
  stored : List Checkpoint
deriving DecidableEq

namespace StateCheckpoint

variable (sc : StateCheckpoint)

/-- A change of the cache, followed by `storeState`. -/
def write (cache : StateMemory) : StateCheckpoint :=
  ⟨cache, sc.stored ++ [storeState cache]⟩

variable (podUID containerName : String)

def setCPUSet (cset : CPUSet) : StateCheckpoint :=
  sc.write (sc.cache.setCPUSet podUID containerName cset)

def setDefaultCPUSet (cset : CPUSet) : StateCheckpoint :=
  sc.write (sc.cache.setDefaultCPUSet cset)

def delete : StateCheckpoint :=
  sc.write (sc.cache.delete podUID containerName)

end StateCheckpoint

inductive RestoreError where
  | policyDiffers
  | cannotParse
deriving DecidableEq

/-- `restoreState` from an existing checkpoint. -/
def restoreState (cp : Checkpoint) : Except RestoreError StateMemory :=
  if cp.policyName ≠ policyStatic then .error .policyDiffers
  else
    match CPUSet.parse cp.defaultCPUSet, mapValM (mapValM CPUSet.parse) cp.entries with
    | some defaultCPUSet, some assignments => .ok ⟨assignments, defaultCPUSet⟩
    | _, _ => .error .cannotParse

/-! ## The policy -/

/-- What the policy is built from, and the pods of the node. -/
structure Node where
  sorting : SortSlice
  topology : CPUTopology
  reserved : CPUSet
  /-- The pod with a given UID; the containers of a pod do not change. -/
  pods : String → Pod
  uid : ∀ u, (pods u).uid = u

inductive InvalidState where
  | defaultEmpty
  | reservedMissing
  | overlapsDefault
  | cpusChanged
deriving DecidableEq

variable (n : Node) (s : StateMemory)

/-- All sets that are assigned, as the ranges over the assignments meet them. -/
def assignedSets : List CPUSet :=
  s.assignments.entries.flatMap fun pod => pod.2.entries.map fun container => container.2

def validateState (sc : StateCheckpoint) : Except InvalidState StateCheckpoint :=
  let tmpDefaultCPUset := sc.cache.defaultCPUSet
  if tmpDefaultCPUset = ∅ then
    if sc.cache.assignments.keys.length ≠ 0 then .error .defaultEmpty
    else .ok (sc.setDefaultCPUSet n.topology.cpus)
  else if n.reserved ∩ tmpDefaultCPUset ≠ n.reserved then .error .reservedMissing
  else if (assignedSets sc.cache).any fun cset => tmpDefaultCPUset ∩ cset ≠ ∅ then
    .error .overlapsDefault
  else if (assignedSets sc.cache).foldl (· ∪ ·) tmpDefaultCPUset ≠ n.topology.cpus then
    .error .cpusChanged
  else .ok sc

/-- The kubelet starts and finds a checkpoint. -/
def restart (cp : Checkpoint) : Option StateCheckpoint :=
  match restoreState cp with
  | .error _ => none
  | .ok cache => (validateState n ⟨cache, [cp]⟩).toOption

structure Manager where
  cpusToReuse : GoMap String CPUSet
  state : StateCheckpoint
deriving DecidableEq

/-- The kubelet starts without a checkpoint: `restoreState` stores the empty state, and
`validateState` initialises it. -/
def start : Manager where
  cpusToReuse := ∅
  state := (StateCheckpoint.write ⟨.new, []⟩ .new).setDefaultCPUSet n.topology.cpus

def getAllocatableCPUs : CPUSet := s.defaultCPUSet \ n.reserved

def isInitContainer (pod : Pod) (containerName : String) : Bool :=
  pod.initContainers.any fun initContainer => containerName = initContainer.name

/-- Delete the entries of the other pods. -/
def forgetOthers (podUID : String) (cpusToReuse : GoMap String CPUSet) : GoMap String CPUSet :=
  cpusToReuse.keys.foldl (fun m uid => if uid ≠ podUID then m.erase uid else m) cpusToReuse

def updateCPUsToReuse (cpusToReuse : GoMap String CPUSet) (pod : Pod) (containerName : String)
    (cset : CPUSet) : GoMap String CPUSet :=
  let cpusToReuse := forgetOthers pod.uid cpusToReuse
  let own := (cpusToReuse.lookup pod.uid).getD ∅
  if isInitContainer pod containerName then cpusToReuse.insert pod.uid (own ∪ cset)
  else cpusToReuse.insert pod.uid (own \ cset)

def guaranteedCPUs (pod : Pod) (container : Container) : Nat :=
  if getPodQOS pod ≠ .guaranteed then 0
  else
    let cpuQuantity := (container.requests.lookup .cpu).getD ⟨0, true⟩
    if cpuQuantity.value * 1000 ≠ cpuQuantity.milliValue then 0 else cpuQuantity.value

/-- The allocatable CPUs on the nodes of an affinity mask. -/
def alignedCPUs (numaAffinity : BitMask) (allocatableCPUs : CPUSet) : CPUSet :=
  numaAffinity.getBits.foldl
    (fun aligned numaNodeID =>
      aligned ∪ (allocatableCPUs ∩ n.topology.details.cpusInNUMANodes numaNodeID)) ∅

/-- The first attempt of `allocateCPUs`: aligned CPUs, as far as there are any. -/
def takeAligned (numCPUs : Nat) (numaAffinity : Option BitMask) (allocatableCPUs : CPUSet) :
    Except String CPUSet :=
  match numaAffinity with
  | none => .ok ∅
  | some mask =>
    let aligned := alignedCPUs n mask allocatableCPUs
    takeByTopology n.sorting n.topology aligned (min numCPUs aligned.card : Nat)

def allocateCPUs (s : StateCheckpoint) (numCPUs : Nat) (numaAffinity : Option BitMask)
    (reusableCPUs : CPUSet) : Except String (CPUSet × StateCheckpoint) := do
  let allocatableCPUs := getAllocatableCPUs n s.cache ∪ reusableCPUs
  let result ← takeAligned n numCPUs numaAffinity allocatableCPUs
  let remainingCPUs ← takeByTopology n.sorting n.topology (allocatableCPUs \ result)
    ((numCPUs : Int) - result.card)
  let result := result ∪ remainingCPUs
  return (result, s.setDefaultCPUSet (s.cache.defaultCPUSet \ result))

variable (m : Manager)

/-- `Allocate`, with the hint that the topology manager has for the container. -/
def allocate (pod : Pod) (container : Container) (hint : TopologyHint) : Manager × Option String :=
  let numCPUs := guaranteedCPUs pod container
  if numCPUs ≠ 0 then
    match m.state.cache.getCPUSet pod.uid container.name with
    | some cpuset =>
      ({ m with cpusToReuse := updateCPUsToReuse m.cpusToReuse pod container.name cpuset }, none)
    | none =>
      match allocateCPUs n m.state numCPUs hint.affinity
          ((m.cpusToReuse.lookup pod.uid).getD ∅) with
      | .error err => (m, some err)
      | .ok (cpuset, s) =>
        ({ cpusToReuse := updateCPUsToReuse m.cpusToReuse pod container.name cpuset
           state := s.setCPUSet pod.uid container.name cpuset }, none)
  else (m, none)

def removeContainer (podUID containerName : String) : Manager :=
  match m.state.cache.getCPUSet podUID containerName with
  | some toRelease =>
    let s := m.state.delete podUID containerName
    { m with state := s.setDefaultCPUSet (s.cache.defaultCPUSet ∪ toRelease) }
  | none => m

/-! ## Runs -/

inductive Call where
  | allocate (podUID : String) (container : Container) (hint : TopologyHint)
  | removeContainer (podUID containerName : String)

/-- Calls in any order, from the state of a first start. -/
def manager : Machine Manager Call where
  init := start n
  step m
    | .allocate podUID container hint => some (allocate n m (n.pods podUID) container hint).1
    | .removeContainer podUID containerName => some (removeContainer m podUID containerName)

/-- CPUs are shared only with an init container of the same pod. -/
structure Exclusive (s : StateMemory) : Prop where
  default_disjoint : ∀ pod c cset, s.getCPUSet pod c = some cset → Disjoint s.defaultCPUSet cset
  all_cpus : ∀ cpu, cpu ∈ n.topology.cpus ↔
    cpu ∈ s.defaultCPUSet ∨ ∃ pod c cset, s.getCPUSet pod c = some cset ∧ cpu ∈ cset
  reserved_subset : n.reserved ⊆ s.defaultCPUSet
  shared_init : ∀ pod c cset pod' c' cset', s.getCPUSet pod c = some cset →
    s.getCPUSet pod' c' = some cset' → (pod, c) ≠ (pod', c') → ¬ Disjoint cset cset' →
      pod = pod' ∧ (isInitContainer (n.pods pod) c = true ∨ isInitContainer (n.pods pod) c' = true)

/-- The calls that keep CPUs exclusive: a container is removed only if its CPUs are in no
other set of its pod, and an application container is allocated only if the CPUs its pod may
reuse are in no set of another application container. -/
def Keeps : Call → Prop
  | .allocate podUID container _ =>
    guaranteedCPUs (n.pods podUID) container ≠ 0 →
      m.state.cache.getCPUSet podUID container.name = none →
        isInitContainer (n.pods podUID) container.name = false →
          ∀ c cset, m.state.cache.getCPUSet podUID c = some cset →
            isInitContainer (n.pods podUID) c = false →
              Disjoint ((m.cpusToReuse.lookup podUID).getD ∅) cset
  | .removeContainer podUID containerName =>
    ∀ cset, m.state.cache.getCPUSet podUID containerName = some cset →
      ∀ c cset', c ≠ containerName → m.state.cache.getCPUSet podUID c = some cset' →
        Disjoint cset cset'

/-! ## Lookups -/

lemma getCPUSet_setCPUSet (pod c : String) (cset : CPUSet) (pod' c' : String) :
    (s.setCPUSet pod c cset).getCPUSet pod' c' =
      if pod' = pod ∧ c' = c then some cset else s.getCPUSet pod' c' :=
  NestedMap.get_put s.assignments pod c cset pod' c'

lemma getCPUSet_delete (pod c pod' c' : String) :
    (s.delete pod c).getCPUSet pod' c' =
      if pod' = pod ∧ c' = c then none else s.getCPUSet pod' c' :=
  NestedMap.get_delete s.assignments pod c pod' c'

lemma lookup_forgetOthers (podUID : String) (m : GoMap String CPUSet) (uid : String) :
    (forgetOthers podUID m).lookup uid = if uid = podUID then m.lookup uid else none := by
  have hfold : ∀ (keys : List String) (m : GoMap String CPUSet),
      (keys.foldl (fun m uid => if uid ≠ podUID then m.erase uid else m) m).lookup uid =
        if uid ≠ podUID ∧ uid ∈ keys then none else m.lookup uid := by
    intro keys
    induction keys with
    | nil =>
      intro m
      simp
    | cons k keys ih =>
      intro m
      rw [List.foldl_cons, ih]
      by_cases hk : k = podUID
      · subst hk
        simp only [ne_eq, not_true_eq_false, if_false, List.mem_cons]
        by_cases hu : uid = k
        · simp [hu]
        · simp [hu]
      · simp only [ne_eq, hk, not_false_eq_true, if_true, lookup_erase_if, List.mem_cons]
        by_cases hu : uid = k
        · subst hu
          simp [hk]
        · simp [hu]
  unfold forgetOthers
  rw [hfold]
  by_cases hu : uid = podUID
  · simp [hu]
  rw [if_neg hu]
  split_ifs with hkey
  · rfl
  · rw [AList.lookup_eq_none, AList.mem_keys]
    exact fun hmem => hkey ⟨hu, hmem⟩

/-- The entries after an update: only the one of the pod, with no CPUs but its own and those
of the container. -/
lemma mem_updateCPUsToReuse {m : GoMap String CPUSet} {pod : Pod} {c : String} {cset : CPUSet}
    {uid : String} {cpu : Nat}
    (h : cpu ∈ ((updateCPUsToReuse m pod c cset).lookup uid).getD ∅) :
    uid = pod.uid ∧ (cpu ∈ (m.lookup uid).getD ∅ ∨ cpu ∈ cset) := by
  unfold updateCPUsToReuse at h
  simp only [lookup_forgetOthers, if_true] at h
  by_cases hu : uid = pod.uid
  · subst hu
    split at h <;> rw [lookup_insert_if, if_pos rfl, Option.getD_some] at h
    · exact ⟨rfl, mem_union.1 h⟩
    · exact ⟨rfl, .inl (mem_sdiff.1 h).1⟩
  · split at h <;> rw [lookup_insert_if, if_neg hu, lookup_forgetOthers, if_neg hu] at h
    · exact absurd h (notMem_empty cpu)
    · exact absurd h (notMem_empty cpu)

/-! ## The calls -/

variable {n}

lemma alignedCPUs_subset (mask : BitMask) (allocatable : CPUSet) :
    alignedCPUs n mask allocatable ⊆ n.topology.cpus ∩ allocatable := by
  have hfold : ∀ (bits : List Int) (aligned : CPUSet), aligned ⊆ n.topology.cpus ∩ allocatable →
      bits.foldl (fun aligned numaNodeID =>
        aligned ∪ (allocatable ∩ n.topology.details.cpusInNUMANodes numaNodeID)) aligned ⊆
        n.topology.cpus ∩ allocatable := by
    intro bits
    induction bits with
    | nil =>
      intro aligned h
      exact h
    | cons b bits ih =>
      intro aligned h
      refine ih _ (union_subset h fun cpu hcpu => ?_)
      obtain ⟨ha, hnode⟩ := mem_inter.1 hcpu
      exact mem_inter.2 ⟨(mem_filter.1 hnode).1, ha⟩
  exact hfold _ _ (empty_subset _)

lemma takeAligned_ok (numCPUs : Nat) (numaAffinity : Option BitMask) (allocatable : CPUSet) :
    ∃ result, takeAligned n numCPUs numaAffinity allocatable = .ok result ∧
      result ⊆ n.topology.cpus ∩ allocatable ∧ result.card ≤ numCPUs := by
  cases numaAffinity with
  | none => exact ⟨∅, rfl, empty_subset _, Nat.zero_le _⟩
  | some mask =>
    have hsub := alignedCPUs_subset (n := n) mask allocatable
    have hinter : n.topology.cpus ∩ alignedCPUs n mask allocatable =
        alignedCPUs n mask allocatable :=
      inter_eq_right.2 (hsub.trans inter_subset_left)
    obtain ⟨result, hok, hres, hcard⟩ := takeByTopology_ok n.sorting n.topology
      (alignedCPUs n mask allocatable)
      (n := min numCPUs (alignedCPUs n mask allocatable).card) (by rw [hinter]; exact min_le_right _ _)
    rw [hinter] at hres
    exact ⟨result, hok, hres.trans hsub, hcard ▸ min_le_left _ _⟩

/-- After the aligned CPUs, `numCPUs` are enough or not as they were before. -/
lemma card_rest {numCPUs : Nat} {allocatable aligned : CPUSet}
    (hsub : aligned ⊆ n.topology.cpus ∩ allocatable) (hcard : aligned.card ≤ numCPUs) :
    numCPUs - aligned.card ≤ (n.topology.cpus ∩ (allocatable \ aligned)).card ↔
      numCPUs ≤ (n.topology.cpus ∩ allocatable).card := by
  have hle := card_le_card hsub
  rw [← inter_sdiff_assoc, card_sdiff_of_subset hsub]
  omega

variable {s : StateCheckpoint}

/-- If there are enough allocatable CPUs, as many as requested are taken from them and from
the shared pool. -/
lemma allocateCPUs_ok {numCPUs : Nat} (numaAffinity : Option BitMask)
    {reusable : CPUSet}
    (h : numCPUs ≤ (n.topology.cpus ∩ (getAllocatableCPUs n s.cache ∪ reusable)).card) :
    ∃ result, allocateCPUs n s numCPUs numaAffinity reusable =
        .ok (result, s.setDefaultCPUSet (s.cache.defaultCPUSet \ result)) ∧
      result ⊆ n.topology.cpus ∩ (getAllocatableCPUs n s.cache ∪ reusable) ∧
      result.card = numCPUs := by
  unfold allocateCPUs
  generalize getAllocatableCPUs n s.cache ∪ reusable = allocatable at h ⊢
  obtain ⟨aligned, haligned, hsub, hcard⟩ := takeAligned_ok (n := n) numCPUs numaAffinity allocatable
  obtain ⟨rest, hrest, hrsub, hrcard⟩ := takeByTopology_ok n.sorting n.topology
    (allocatable \ aligned) (n := numCPUs - aligned.card) ((card_rest hsub hcard).2 h)
  rw [← inter_sdiff_assoc, subset_sdiff] at hrsub
  rw [Nat.cast_sub hcard] at hrest
  refine ⟨aligned ∪ rest, ?_, union_subset hsub hrsub.1, ?_⟩
  · refine bind_eq_ok.2 ⟨aligned, haligned, bind_eq_ok.2 ⟨rest, hrest, rfl⟩⟩
  · rw [card_union_of_disjoint hrsub.2.symm, hrcard]
    omega

lemma allocateCPUs_error {numCPUs : Nat} (numaAffinity : Option BitMask)
    {reusable : CPUSet}
    (h : (n.topology.cpus ∩ (getAllocatableCPUs n s.cache ∪ reusable)).card < numCPUs) :
    ∃ e, allocateCPUs n s numCPUs numaAffinity reusable = .error e := by
  unfold allocateCPUs
  generalize getAllocatableCPUs n s.cache ∪ reusable = allocatable at h ⊢
  obtain ⟨aligned, haligned, hsub, hcard⟩ := takeAligned_ok (n := n) numCPUs numaAffinity allocatable
  obtain ⟨e, he⟩ := takeByTopology_error n.sorting n.topology
    (allocatable \ aligned) (n := numCPUs - aligned.card)
    (not_le.1 fun hle => not_le.2 h ((card_rest hsub hcard).1 hle))
  rw [Nat.cast_sub hcard] at he
  refine ⟨e, ?_⟩
  simp only [haligned, he, bind, Except.bind]

theorem allocate_cases (m : Manager) (pod : Pod) (container : Container) (hint : TopologyHint) :
    -- the container is not exclusive, or there are not enough CPUs
    (allocate n m pod container hint).1 = m ∨
    -- it has its CPUs already
    (∃ cset, m.state.cache.getCPUSet pod.uid container.name = some cset ∧
      (allocate n m pod container hint).1 =
        { m with cpusToReuse := updateCPUsToReuse m.cpusToReuse pod container.name cset }) ∨
    -- it is given CPUs
    (∃ cset, m.state.cache.getCPUSet pod.uid container.name = none ∧
      guaranteedCPUs pod container ≠ 0 ∧
      cset.card = guaranteedCPUs pod container ∧
      cset ⊆ n.topology.cpus ∩
        (getAllocatableCPUs n m.state.cache ∪ (m.cpusToReuse.lookup pod.uid).getD ∅) ∧
      (allocate n m pod container hint).1 =
        { cpusToReuse := updateCPUsToReuse m.cpusToReuse pod container.name cset
          state := (m.state.setDefaultCPUSet (m.state.cache.defaultCPUSet \ cset)).setCPUSet
            pod.uid container.name cset }) := by
  unfold allocate
  simp only
  split_ifs with hnum
  · cases hget : m.state.cache.getCPUSet pod.uid container.name with
    | some cset => exact .inr (.inl ⟨cset, rfl, rfl⟩)
    | none =>
      rcases le_or_gt (guaranteedCPUs pod container) (n.topology.cpus ∩ (getAllocatableCPUs n
        m.state.cache ∪ (m.cpusToReuse.lookup pod.uid).getD ∅)).card with h | h
      · obtain ⟨cset, hok, hsub, hcard⟩ := allocateCPUs_ok hint.affinity h
        refine .inr (.inr ⟨cset, rfl, hnum, hcard, hsub, ?_⟩)
        rw [hok]
      · obtain ⟨e, he⟩ := allocateCPUs_error hint.affinity h
        rw [he]
        exact .inl rfl
  · exact .inl rfl

theorem removeContainer_cases (m : Manager) (podUID containerName : String) :
    (m.state.cache.getCPUSet podUID containerName = none ∧ removeContainer m podUID containerName = m) ∨
    ∃ cset, m.state.cache.getCPUSet podUID containerName = some cset ∧
      removeContainer m podUID containerName =
        { m with
          state := (m.state.delete podUID containerName).setDefaultCPUSet
            (m.state.cache.defaultCPUSet ∪ cset) } := by
  unfold removeContainer
  cases hget : m.state.cache.getCPUSet podUID containerName with
  | none => exact .inl ⟨rfl, rfl⟩
  | some cset => exact .inr ⟨cset, rfl, rfl⟩

lemma forall_getCPUSet_iff {s : StateMemory} {pod : String} {P : String → CPUSet → Prop} :
    (∀ c cset, s.getCPUSet pod c = some cset → P c cset) ↔
      ∀ e ∈ ((s.assignments.lookup pod).getD ∅).entries, P e.1 e.2 := by
  have hmem : ∀ c cset, s.getCPUSet pod c = some cset ↔
      ⟨c, cset⟩ ∈ ((s.assignments.lookup pod).getD ∅).entries := by
    intro c cset
    unfold StateMemory.getCPUSet
    rw [← AList.mem_lookup_iff]
    cases s.assignments.lookup pod <;> rfl
  constructor
  · intro h e he
    exact h _ _ ((hmem _ _).2 he)
  · intro h c cset hs
    exact h _ ((hmem _ _).1 hs)

instance (s : StateMemory) (pod : String) (P : String → CPUSet → Prop) [∀ c cset, Decidable (P c cset)] :
    Decidable (∀ c cset, s.getCPUSet pod c = some cset → P c cset) :=
  decidable_of_iff _ forall_getCPUSet_iff.symm

/-- The rules for a call can be checked. -/
instance decidableKeeps (m : Manager) : (call : Call) → Decidable (Keeps n m call)
  | .allocate podUID container _ =>
    inferInstanceAs (Decidable (guaranteedCPUs (n.pods podUID) container ≠ 0 →
      m.state.cache.getCPUSet podUID container.name = none →
        isInitContainer (n.pods podUID) container.name = false →
          ∀ c cset, m.state.cache.getCPUSet podUID c = some cset →
            isInitContainer (n.pods podUID) c = false →
              Disjoint ((m.cpusToReuse.lookup podUID).getD ∅) cset))
  | .removeContainer podUID containerName =>
    match hget : m.state.cache.getCPUSet podUID containerName with
    | none => .isTrue fun cset h => by
        rw [hget] at h
        cases h
    | some cset =>
      decidable_of_iff (∀ c cset', m.state.cache.getCPUSet podUID c = some cset' →
          c ≠ containerName → Disjoint cset cset') <| by
        constructor
        · intro h cset₁ hs c cset' hne hs'
          rw [hget] at hs
          cases hs
          exact h c cset' hs' hne
        · intro h c cset' hs' hne
          exact h cset hget c cset' hne hs'

/-! ## Giving and releasing sets -/

namespace Exclusive

variable {s : StateMemory} {pod c : String} {cset : CPUSet}

/-- Move CPUs from the shared pool, or from what a pod may share, to a container. -/
lemma give (h : Exclusive n s) (hnone : s.getCPUSet pod c = none) (hcpus : cset ⊆ n.topology.cpus)
    (hreserved : Disjoint cset n.reserved)
    (hother : ∀ pod' c' cset', s.getCPUSet pod' c' = some cset' → ¬ Disjoint cset cset' →
      pod = pod' ∧ (isInitContainer (n.pods pod) c = true ∨ isInitContainer (n.pods pod) c' = true)) :
    Exclusive n ((s.setDefaultCPUSet (s.defaultCPUSet \ cset)).setCPUSet pod c cset) := by
  have hget : ∀ pod' c', ((s.setDefaultCPUSet (s.defaultCPUSet \ cset)).setCPUSet pod c cset).getCPUSet
      pod' c' = if pod' = pod ∧ c' = c then some cset else s.getCPUSet pod' c' :=
    fun pod' c' => getCPUSet_setCPUSet _ pod c cset pod' c'
  refine ⟨fun pod' c' cset' hs => ?_, fun cpu => ?_, ?_, fun pod1 c1 cset1 pod2 c2 cset2 h1 h2 hne hnd => ?_⟩
  · show Disjoint (s.defaultCPUSet \ cset) cset'
    rw [hget] at hs
    split at hs
    · cases hs
      exact sdiff_disjoint
    · exact (h.default_disjoint _ _ _ hs).mono_left sdiff_subset
  · show _ ↔ cpu ∈ s.defaultCPUSet \ cset ∨ _
    simp only [hget, mem_sdiff]
    constructor
    · intro hcpu
      by_cases hin : cpu ∈ cset
      · exact .inr ⟨pod, c, cset, if_pos ⟨rfl, rfl⟩, hin⟩
      rcases (h.all_cpus cpu).1 hcpu with hd | ⟨pod', c', cset', hs, hmem⟩
      · exact .inl ⟨hd, hin⟩
      refine .inr ⟨pod', c', cset', ?_, hmem⟩
      rw [if_neg, hs]
      rintro ⟨rfl, rfl⟩
      rw [hs] at hnone
      cases hnone
    · rintro (⟨hd, -⟩ | ⟨pod', c', cset', hs, hmem⟩)
      · exact (h.all_cpus cpu).2 (.inl hd)
      split at hs
      · cases hs
        exact hcpus hmem
      · exact (h.all_cpus cpu).2 (.inr ⟨pod', c', cset', hs, hmem⟩)
  · show n.reserved ⊆ s.defaultCPUSet \ cset
    exact subset_sdiff.2 ⟨h.reserved_subset, hreserved.symm⟩
  · rw [hget] at h1 h2
    split_ifs at h1 with hp1
    · obtain ⟨rfl, rfl⟩ := hp1
      cases h1
      split_ifs at h2 with hp2
      · exact absurd (Prod.ext hp2.1.symm hp2.2.symm) hne
      · exact hother _ _ _ h2 hnd
    · split_ifs at h2 with hp2
      · obtain ⟨rfl, rfl⟩ := hp2
        cases h2
        obtain ⟨rfl, hinit⟩ := hother _ _ _ h1 fun hd => hnd hd.symm
        exact ⟨rfl, hinit.symm⟩
      · exact h.shared_init _ _ _ _ _ _ h1 h2 hne hnd

/-- Give the CPUs of a container, which no other set has, back to the shared pool. -/
lemma release (h : Exclusive n s) (hsome : s.getCPUSet pod c = some cset)
    (hother : ∀ c' cset', c' ≠ c → s.getCPUSet pod c' = some cset' → Disjoint cset cset') :
    Exclusive n ((s.delete pod c).setDefaultCPUSet (s.defaultCPUSet ∪ cset)) := by
  have hget : ∀ pod' c', ((s.delete pod c).setDefaultCPUSet (s.defaultCPUSet ∪ cset)).getCPUSet
      pod' c' = if pod' = pod ∧ c' = c then none else s.getCPUSet pod' c' :=
    fun pod' c' => getCPUSet_delete s pod c pod' c'
  have hkept : ∀ {pod' c' cset'}, ((s.delete pod c).setDefaultCPUSet
      (s.defaultCPUSet ∪ cset)).getCPUSet pod' c' = some cset' →
      ¬ (pod' = pod ∧ c' = c) ∧ s.getCPUSet pod' c' = some cset' := by
    intro pod' c' cset' hs
    rw [hget] at hs
    split_ifs at hs with hne
    exact ⟨hne, hs⟩
  refine ⟨fun pod' c' cset' hs => ?_, fun cpu => ?_, ?_, fun pod1 c1 cset1 pod2 c2 cset2 h1 h2 hne hnd => ?_⟩
  · obtain ⟨hne, hold⟩ := hkept hs
    show Disjoint (s.defaultCPUSet ∪ cset) cset'
    rw [disjoint_union_left]
    refine ⟨h.default_disjoint _ _ _ hold, ?_⟩
    by_cases hp : pod' = pod
    · subst hp
      exact hother c' cset' (fun hc => hne ⟨rfl, hc⟩) hold
    -- sets of different pods are disjoint
    by_contra hnd
    exact hp (h.shared_init _ _ _ _ _ _ hsome hold (fun heq => hp (congrArg Prod.fst heq).symm)
      hnd).1.symm
  · show _ ↔ cpu ∈ s.defaultCPUSet ∪ cset ∨ _
    rw [h.all_cpus, mem_union]
    constructor
    · rintro (hd | ⟨pod', c', cset', hs, hmem⟩)
      · exact .inl (.inl hd)
      by_cases hp : pod' = pod ∧ c' = c
      · obtain ⟨rfl, rfl⟩ := hp
        rw [hsome] at hs
        cases hs
        exact .inl (.inr hmem)
      · refine .inr ⟨pod', c', cset', ?_, hmem⟩
        rw [hget, if_neg hp, hs]
    · rintro ((hd | hmem) | ⟨pod', c', cset', hs, hmem⟩)
      · exact .inl hd
      · exact .inr ⟨pod, c, cset, hsome, hmem⟩
      · exact .inr ⟨pod', c', cset', (hkept hs).2, hmem⟩
  · exact h.reserved_subset.trans subset_union_left
  · exact h.shared_init _ _ _ _ _ _ (hkept h1).2 (hkept h2).2 hne hnd

end Exclusive

/-! ## The invariant -/

/-- The CPUs that a pod may reuse are not reserved, and no other pod has them. -/
structure Inv (n : Node) (m : Manager) : Prop where
  exclusive : Exclusive n m.state.cache
  reuse_reserved : ∀ uid, Disjoint ((m.cpusToReuse.lookup uid).getD ∅) n.reserved
  reuse_other : ∀ uid pod c cset, m.state.cache.getCPUSet pod c = some cset → pod ≠ uid →
    Disjoint ((m.cpusToReuse.lookup uid).getD ∅) cset

namespace Inv

variable {m : Manager}

lemma init (hreserved : n.reserved ⊆ n.topology.cpus) : Inv n (start n) where
  exclusive := by
    have hnone : ∀ pod c, (start n).state.cache.getCPUSet pod c = none := fun _ _ => rfl
    refine ⟨fun pod c cset h => ?_, fun cpu => ?_, hreserved, fun pod c cset _ _ _ h => ?_⟩
    · rw [hnone] at h
      cases h
    · constructor
      · exact .inl
      rintro (h | ⟨pod, c, cset, h, -⟩)
      · exact h
      · rw [hnone] at h
        cases h
    · rw [hnone] at h
      cases h
  reuse_reserved := fun _ => disjoint_empty_left _
  reuse_other := fun _ _ _ _ _ _ => disjoint_empty_left _

/-- The reusable CPUs after a container of the pod has, or has been given, the set `cset`. -/
lemma updateCPUsToReuse (h : Inv n m) {pod : Pod} {c : String} {cset : CPUSet}
    (hs : Exclusive n s.cache)
    (hget : ∀ pod' c' cset', pod' ≠ pod.uid → s.cache.getCPUSet pod' c' = some cset' →
      m.state.cache.getCPUSet pod' c' = some cset')
    (hreserved : Disjoint cset n.reserved)
    (hother : ∀ pod' c' cset', pod' ≠ pod.uid → m.state.cache.getCPUSet pod' c' = some cset' →
      Disjoint cset cset') :
    Inv n ⟨updateCPUsToReuse m.cpusToReuse pod c cset, s⟩ where
  exclusive := hs
  reuse_reserved := by
    intro uid
    rw [disjoint_left]
    intro cpu hcpu
    obtain ⟨rfl, hold | hnew⟩ := mem_updateCPUsToReuse hcpu
    · exact disjoint_left.1 (h.reuse_reserved _) hold
    · exact disjoint_left.1 hreserved hnew
  reuse_other := by
    intro uid pod' c' cset' hs' hne
    rw [disjoint_left]
    intro cpu hcpu
    obtain ⟨rfl, hold | hnew⟩ := mem_updateCPUsToReuse hcpu
    · exact disjoint_left.1 (h.reuse_other _ _ _ _ (hget _ _ _ hne hs') hne) hold
    · exact disjoint_left.1 (hother _ _ _ hne (hget _ _ _ hne hs')) hnew

lemma allocate (h : Inv n m) {podUID : String} {container : Container} {hint : TopologyHint}
    (hok : Keeps n m (.allocate podUID container hint)) :
    Inv n (allocate n m (n.pods podUID) container hint).1 := by
  have huid := n.uid podUID
  rcases allocate_cases (n := n) m (n.pods podUID) container hint with
    heq | ⟨cset, hsome, heq⟩ | ⟨cset, hnone, hnum, -, hsub, heq⟩
  · rw [heq]
    exact h
  · -- the set was recorded before: it is disjoint from the pool and from other pods
    rw [heq]
    refine h.updateCPUsToReuse h.exclusive (fun _ _ _ _ hs => hs) ?_ fun pod' c' cset' hne hs => ?_
    · exact ((h.exclusive.default_disjoint _ _ _ hsome).mono_left h.exclusive.reserved_subset).symm
    · by_contra hnd
      exact hne (h.exclusive.shared_init _ _ _ _ _ _ hsome hs
        (fun heq => hne (congrArg Prod.fst heq).symm) hnd).1.symm
  rw [huid] at hnone hsub heq
  -- where a CPU of the new set can come from
  have hfrom : ∀ cpu ∈ cset, (cpu ∈ m.state.cache.defaultCPUSet ∧ cpu ∉ n.reserved) ∨
      cpu ∈ (m.cpusToReuse.lookup podUID).getD ∅ := by
    intro cpu hcpu
    have hmem := (mem_inter.1 (hsub hcpu)).2
    rw [getAllocatableCPUs, mem_union, mem_sdiff] at hmem
    exact hmem
  have hreserved : Disjoint cset n.reserved := by
    rw [disjoint_left]
    intro cpu hcpu
    rcases hfrom cpu hcpu with ⟨-, hr⟩ | hr
    · exact hr
    · exact disjoint_left.1 (h.reuse_reserved _) hr
  have hshare : ∀ pod' c' cset', m.state.cache.getCPUSet pod' c' = some cset' →
      ¬ Disjoint cset cset' → ∃ cpu ∈ cset', cpu ∈ (m.cpusToReuse.lookup podUID).getD ∅ := by
    intro pod' c' cset' hs hnd
    rw [not_disjoint_iff] at hnd
    obtain ⟨cpu, hcpu, hcpu'⟩ := hnd
    rcases hfrom cpu hcpu with ⟨hd, -⟩ | hr
    · exact absurd hcpu' (disjoint_left.1 (h.exclusive.default_disjoint _ _ _ hs) hd)
    · exact ⟨cpu, hcpu', hr⟩
  have hpods : ∀ pod' c' cset', pod' ≠ podUID → m.state.cache.getCPUSet pod' c' = some cset' →
      Disjoint cset cset' := by
    intro pod' c' cset' hne hs
    by_contra hnd
    obtain ⟨cpu, hcpu, hr⟩ := hshare _ _ _ hs hnd
    exact disjoint_left.1 (h.reuse_other _ _ _ _ hs hne) hr hcpu
  rw [heq]
  refine h.updateCPUsToReuse ?_ (fun pod' c' cset' hne hs => ?_) hreserved fun pod' c' cset' hne => ?_
  · refine h.exclusive.give hnone (fun cpu hcpu => (mem_inter.1 (hsub hcpu)).1) hreserved
      fun pod' c' cset' hs hnd => ?_
    have hpod : pod' = podUID := by
      by_contra hne
      exact hnd (hpods _ _ _ hne hs)
    subst hpod
    refine ⟨rfl, ?_⟩
    -- neither is an init container: then the reusable CPUs avoid the other one
    by_contra hinit
    rw [not_or, Bool.not_eq_true, Bool.not_eq_true] at hinit
    obtain ⟨cpu, hcpu, hr⟩ := hshare _ _ _ hs hnd
    exact disjoint_left.1 (hok hnum hnone hinit.1 _ _ hs hinit.2) hr hcpu
  · rw [huid] at hne
    have hlookup := getCPUSet_setCPUSet
      (m.state.cache.setDefaultCPUSet (m.state.cache.defaultCPUSet \ cset)) podUID container.name
      cset pod' c'
    rw [if_neg fun hp => hne hp.1] at hlookup
    exact hlookup ▸ hs
  · rw [huid] at hne
    exact hpods _ _ _ hne

lemma removeContainer (h : Inv n m) {podUID containerName : String}
    (hok : Keeps n m (.removeContainer podUID containerName)) :
    Inv n (removeContainer m podUID containerName) := by
  rcases removeContainer_cases m podUID containerName with ⟨-, heq⟩ | ⟨cset, hsome, heq⟩
  · rw [heq]
    exact h
  rw [heq]
  refine ⟨h.exclusive.release hsome fun c' cset' hne hs => hok cset hsome c' cset' hne hs,
    h.reuse_reserved, fun uid pod' c' cset' hs hne => ?_⟩
  have hlookup := getCPUSet_delete m.state.cache podUID containerName pod' c'
  refine h.reuse_other uid pod' c' cset' ?_ hne
  have hs' : (m.state.cache.delete podUID containerName).getCPUSet pod' c' = some cset' := hs
  rw [hlookup] at hs'
  split_ifs at hs'
  exact hs'

lemma reach (hreserved : n.reserved ⊆ n.topology.cpus) {tr : List Call}
    (h : (manager n).ReachWhen (Keeps n) tr m) : Inv n m := by
  refine h.invariant (Inv n) (init hreserved) fun m call m' hinv hok hstep => ?_
  cases call with
  | allocate podUID container hint =>
    obtain rfl := Option.some.inj hstep
    exact hinv.allocate hok
  | removeContainer podUID containerName =>
    obtain rfl := Option.some.inj hstep
    exact hinv.removeContainer hok

end Inv

/-- In every run whose calls keep to the rules, exclusive CPUs stay exclusive. -/
theorem cpus_exclusive (n : Node) (hreserved : n.reserved ⊆ n.topology.cpus) {tr : List Call}
    {m : Manager} (h : (manager n).ReachWhen (Keeps n) tr m) : Exclusive n m.state.cache :=
  (Inv.reach hreserved h).exclusive

/-- A machine with four CPUs, of which the first one is reserved. Every pod has an init
container and an application container that ask for two CPUs each. -/
def fourCPUs : Node :=
  let resources : ResourceList :=
    (AList.insert .cpu ⟨2000000000, true⟩ ∅).insert .memory ⟨1000000000, true⟩
  { sorting := .insertion
    topology := ⟨4, 4, 1, ⟨{0, 1, 2, 3}, fun c => ⟨0, 0, c⟩⟩, by decide⟩
    reserved := {0}
    pods := fun u => ⟨u, [⟨"init", resources, resources⟩], [⟨"app", resources, resources⟩]⟩
    uid := fun _ => rfl }

def container (name : String) : Container :=
  { name, requests := AList.insert .cpu ⟨2000000000, true⟩ ∅ }

/-- A pod's containers share their CPUs; the application container of another pod is refused
CPUs, and gets them once those of the first pod are free. -/
theorem cpus_exclusive_pod :
    ∃ m, (manager fourCPUs).ReachWhen (Keeps fourCPUs)
        [.allocate "p" (container "app") ⟨none, true⟩, .allocate "q" (container "app") ⟨none, true⟩,
          .removeContainer "p" "app", .allocate "q" (container "init") ⟨some 1, true⟩,
          .allocate "q" (container "app") ⟨none, true⟩] m ∧
      (m.state.cache.defaultCPUSet, m.state.cache.getCPUSet "q" "init",
        m.state.cache.getCPUSet "q" "app") = ({0, 3}, some {1, 2}, some {1, 2}) ∧
      Exclusive fourCPUs m.state.cache := by
  obtain ⟨m, hreach, hm⟩ := (manager fourCPUs).exists_reachWhen (Keeps fourCPUs)
    (fun m => (m.state.cache.defaultCPUSet, m.state.cache.getCPUSet "q" "init",
      m.state.cache.getCPUSet "q" "app"))
    [.allocate "p" (container "app") ⟨none, true⟩, .allocate "q" (container "app") ⟨none, true⟩,
      .removeContainer "p" "app", .allocate "q" (container "init") ⟨some 1, true⟩,
      .allocate "q" (container "app") ⟨none, true⟩]
    ({0, 3}, some {1, 2}, some {1, 2}) (by decide +kernel)
  exact ⟨m, hreach, hm, cpus_exclusive fourCPUs (by decide) hreach⟩

/-- The init container is removed while the application container runs on the same CPUs. -/
theorem cpus_shared_after_init_removed :
    ∃ m, (manager fourCPUs).Reach
        [.allocate "p" (container "init") ⟨none, true⟩, .allocate "p" (container "app") ⟨none, true⟩,
          .removeContainer "p" "init"] m ∧
      m.state.cache.getCPUSet "p" "app" = some {1, 2} ∧
      m.state.cache.defaultCPUSet = {0, 1, 2, 3} ∧ ¬ Exclusive fourCPUs m.state.cache := by
  obtain ⟨m, hreach, hm⟩ := (manager fourCPUs).exists_reach
    (fun m => (m.state.cache.getCPUSet "p" "app", m.state.cache.defaultCPUSet))
    [.allocate "p" (container "init") ⟨none, true⟩, .allocate "p" (container "app") ⟨none, true⟩,
      .removeContainer "p" "init"]
    (some {1, 2}, {0, 1, 2, 3}) (by decide +kernel)
  rw [Prod.mk.injEq] at hm
  refine ⟨m, hreach, hm.1, hm.2, fun h => ?_⟩
  have hdisj := h.default_disjoint _ _ _ hm.1
  rw [hm.2] at hdisj
  revert hdisj
  decide

end Kubernetes.Kubelet.CPUManager
