import Kubernetes.Greedy
import Kubernetes.Scheduler.NodeInfo
import Kubernetes.Slice

/-! # The victims of a preemption on one node

`selectVictimsOnNode` removes all pods of lower priority from a copy of the node, checks
that the preemptor fits, and then adds the pods back one after the other, those first whose
disruption budget would be violated. A pod with which the preemptor does not fit is removed
again: it is a victim.

Two things are kept as the source has them. The first loop ranges over the pods of the node
while `RemovePod` writes to the array behind them; and what the filters see is a cycle state
that the plugins update by themselves, which may fail at every call.

What is assumed about the filters is `FilterModel`: as long as the cycle state follows the
pods of the node, they pass if and only if an antitone predicate holds of the set of these
pods.

Results:

1. `removeLowerPriority_spec`: the first loop visits every pod of the node once, and removes
   those of lower priority;
2. `selectVictimsOnNode_run`: the two loops that add pods back make the choices of
   `Greedy.run`;
3. `victims_minimal`: the victims suffice, and each of them is needed.
-/

namespace Kubernetes.Scheduler.Preemption

open GoMap Greedy List

/-! ## Pods -/

/-- The fields of a pod that are read. -/
structure Pod where
  uid : String
  name : String
  podNamespace : String
  labels : Labels
  priority : Option Int
  startTime : Option Nat
deriving DecidableEq

def podPriority (pod : Pod) : Int := pod.priority.getD 0

def getPodKey (pod : Pod) : Except String String :=
  if pod.uid = "" then .error "Cannot get cache key for pod with empty UID" else .ok pod.uid

/-- Whether the pod has the key `k`; a pod without a key is skipped. -/
def hasKey (k : String) (pod : Pod) : Bool :=
  match getPodKey pod with
  | .ok k2 => k == k2
  | .error _ => false

variable (now : Nat)

/-- `GetPodStartTime`: now, for a pod that was not started yet. -/
def getPodStartTime (pod : Pod) : Nat := pod.startTime.getD now

def moreImportantPod (pod1 pod2 : Pod) : Bool :=
  if podPriority pod1 ≠ podPriority pod2 then podPriority pod1 > podPriority pod2
  else getPodStartTime now pod1 < getPodStartTime now pod2

/-- `sort.Slice` by `MoreImportantPod`. It is not stable, and the comparison reads the clock
for pods that were not started. -/
structure SortSlice where
  sort : List Pod → List Pod
  perm : ∀ pods, (sort pods).Perm pods
  sorted : ∀ now pods, (∀ p ∈ pods, p.startTime ≠ none) →
    (sort pods).Pairwise fun a b => moreImportantPod now b a = false

/-- At least as important, with `now` as the start time of pods that were not started. -/
def AtLeastAsImportant (a b : Pod) : Prop := moreImportantPod now b a = false

instance (now : Nat) : DecidableRel (AtLeastAsImportant now) := fun a b =>
  inferInstanceAs (Decidable (moreImportantPod now b a = false))

lemma atLeastAsImportant_iff {now : Nat} {a b : Pod} :
    AtLeastAsImportant now a b ↔ podPriority b < podPriority a ∨
      podPriority a = podPriority b ∧ getPodStartTime now a ≤ getPodStartTime now b := by
  unfold AtLeastAsImportant moreImportantPod
  split_ifs with hne
  · rw [decide_eq_false_iff_not]
    omega
  · rw [decide_eq_false_iff_not]
    omega

instance (now : Nat) : Std.Total (AtLeastAsImportant now) where
  total a b := by
    rw [atLeastAsImportant_iff, atLeastAsImportant_iff]
    omega

instance (now : Nat) : IsTrans Pod (AtLeastAsImportant now) where
  trans a b c := by
    rw [atLeastAsImportant_iff, atLeastAsImportant_iff, atLeastAsImportant_iff]
    omega

/-- Sorting by insertion, at some time. -/
def SortSlice.insertion : SortSlice where
  sort := List.insertionSort (AtLeastAsImportant now)
  perm := perm_insertionSort _
  sorted := by
    intro now' pods hstarted
    refine (pairwise_insertionSort (AtLeastAsImportant now) pods).imp_of_mem ?_
    intro a b ha hb hab
    obtain ⟨ta, hta⟩ := Option.ne_none_iff_exists'.1
      (hstarted a ((perm_insertionSort _ _).mem_iff.1 ha))
    obtain ⟨tb, htb⟩ := Option.ne_none_iff_exists'.1
      (hstarted b ((perm_insertionSort _ _).mem_iff.1 hb))
    have hcases := atLeastAsImportant_iff.1 hab
    rw [getPodStartTime, getPodStartTime, hta, htb] at hcases
    refine atLeastAsImportant_iff.2 ?_
    rwa [getPodStartTime, getPodStartTime, hta, htb]

/-! ## Disruption budgets -/

/-- The fields of a `PodDisruptionBudget` that are read. -/
structure PodDisruptionBudget where
  podNamespace : String
  selector : LabelSelector
  disruptionsAllowed : Int
  disruptedPods : Finset String

/-- One disruption budget and one pod: what is left of the budget, and whether it is
violated. -/
def disruptOne (pod : Pod) (pdb : PodDisruptionBudget) (allowed : Int) : Int × Bool :=
  if pdb.podNamespace ≠ pod.podNamespace then (allowed, false)
  else
    match labelSelectorAsSelector pdb.selector with
    | .error _ => (allowed, false)
    | .ok selector =>
      -- a budget with a nil or empty selector matches nothing
      if selector.empty || !selector.selects pod.labels then (allowed, false)
      else if pod.name ∈ pdb.disruptedPods then (allowed, false)
      else (allowed - 1, decide (allowed - 1 < 0))

variable (pdbs : List PodDisruptionBudget)

/-- The loop over the budgets. A pod without labels matches none. -/
def disruptPod (pdbsAllowed : List Int) (pod : Pod) : List Int × Bool :=
  if !pod.labels.keys.isEmpty then
    let results := List.zipWith (disruptOne pod) pdbs pdbsAllowed
    (results.map (·.1), results.any (·.2))
  else (pdbsAllowed, false)

/-- The state of the loop over the pods. -/
structure PDBFilter where
  pdbsAllowed : List Int
  violatingPods : List Pod
  nonViolatingPods : List Pod

def PDBFilter.next (f : PDBFilter) (pod : Pod) : PDBFilter :=
  let (pdbsAllowed, pdbForPodIsViolated) := disruptPod pdbs f.pdbsAllowed pod
  if pdbForPodIsViolated then { f with pdbsAllowed, violatingPods := f.violatingPods ++ [pod] }
  else { f with pdbsAllowed, nonViolatingPods := f.nonViolatingPods ++ [pod] }

def filterPodsWithPDBViolation (pods : List Pod) (pdbs : List PodDisruptionBudget) :
    List Pod × List Pod :=
  let f := pods.foldl (PDBFilter.next pdbs) ⟨pdbs.map (·.disruptionsAllowed), [], []⟩
  (f.violatingPods, f.nonViolatingPods)

/-! ## Dry runs on a node -/

/-- The framework, with a cycle state `σ`: the extensions of the pre-filters and the filter
plugins, for a preemptor and the pods of the node. -/
structure Handle (σ : Type) where
  runPreFilterExtensionRemovePod : σ → Pod → Pod → List Pod → Except String σ
  runPreFilterExtensionAddPod : σ → Pod → Pod → List Pod → Except String σ
  runFilterPluginsWithNominatedPods : σ → Pod → List Pod → Except Status Unit

structure NodeInfo where
  nodeName : String
  pods : Slice Pod

/-- A node and the cycle state during a dry run. -/
structure DryRun (σ : Type) where
  state : σ
  nodeInfo : NodeInfo

variable {σ : Type} (fh : Handle σ) (preemptor : Pod) (d : DryRun σ)

namespace DryRun

/-- `NodeInfo.RemovePod`, then the extensions. An emptied slice is not reset to nil here: that
writes nothing to its array. -/
def removePod (rpi : Pod) : Except String (DryRun σ) := do
  let k ← getPodKey rpi
  match d.nodeInfo.pods.removeFirst (hasKey k) with
  | none =>
    .error ("no corresponding pod " ++ rpi.name ++ " in pods of node " ++ d.nodeInfo.nodeName)
  | some pods => do
    let state ← fh.runPreFilterExtensionRemovePod d.state preemptor rpi pods.toList
    return ⟨state, { d.nodeInfo with pods }⟩

/-- `NodeInfo.AddPodInfo`, then the extensions. -/
def addPod (api : Pod) : Except String (DryRun σ) := do
  let pods := d.nodeInfo.pods.append api
  let state ← fh.runPreFilterExtensionAddPod d.state preemptor api pods.toList
  return ⟨state, { d.nodeInfo with pods }⟩

/-- Whether the preemptor fits. -/
def runFilters : Except Status Unit :=
  fh.runFilterPluginsWithNominatedPods d.state preemptor d.nodeInfo.pods.toList

end DryRun

/-! ## Selecting victims -/

/-- The state of the loop that removes pods. -/
structure Removal (σ : Type) where
  run : DryRun σ
  potentialVictims : List Pod

/-- One iteration: the loop reads slot `i` of the array that it started with. -/
def Removal.next (r : Removal σ) (i : Nat) : Except String (Removal σ) :=
  match r.run.nodeInfo.pods.backing[i]? with
  | none => .ok r
  | some pi =>
    if podPriority pi < podPriority preemptor then do
      let run ← r.run.removePod fh preemptor pi
      return ⟨run, r.potentialVictims ++ [pi]⟩
    else .ok r

/-- The loop that removes all the pods of lower priority. -/
def removeLowerPriority : Except String (Removal σ) :=
  (List.range d.nodeInfo.pods.len).foldlM (Removal.next fh preemptor) ⟨d, []⟩

/-- The state of the loops that add pods back. -/
structure Reprieve (σ : Type) where
  run : DryRun σ
  victims : List Pod

/-- `reprievePod`, and whether the preemptor fits with the pod. -/
def reprievePod (r : Reprieve σ) (pi : Pod) : Except String (Reprieve σ × Bool) := do
  let run ← r.run.addPod fh preemptor pi
  match run.runFilters fh preemptor with
  | .ok () => return (⟨run, r.victims⟩, true)
  | .error _ => do
    let run ← run.removePod fh preemptor pi
    return (⟨run, r.victims ++ [pi]⟩, false)

/-- The loop over the violating victims counts those that stay victims. -/
def reprieveViolating (r : Reprieve σ × Nat) (p : Pod) : Except String (Reprieve σ × Nat) := do
  let (r', fits) ← reprievePod fh preemptor r.1 p
  return (r', if !fits then r.2 + 1 else r.2)

/-- The loop over the others. -/
def reprieveNonViolating (r : Reprieve σ) (p : Pod) : Except String (Reprieve σ) := do
  let (r', _) ← reprievePod fh preemptor r p
  return r'

def noVictimsFound (nodeInfo : NodeInfo) (preemptor : Pod) : Status :=
  ⟨.unschedulableAndUnresolvable, ["No victims found on node " ++ nodeInfo.nodeName ++
    " for preemptor pod " ++ preemptor.name]⟩

variable (sorting : SortSlice)

/-- `selectVictimsOnNode`: the victims, and how many of them violate a budget. -/
def selectVictimsOnNode (state : σ) (pod : Pod)
    (nodeInfo : NodeInfo) (pdbs : List PodDisruptionBudget) : Except Status (List Pod × Nat) := do
  let removed ← (removeLowerPriority fh pod ⟨state, nodeInfo⟩).mapError asStatus
  if removed.potentialVictims.isEmpty then .error (noVictimsFound nodeInfo pod)
  else do
    removed.run.runFilters fh pod
    let potentialVictims := sorting.sort removed.potentialVictims
    let groups := filterPodsWithPDBViolation potentialVictims pdbs
    let violating ← (groups.1.foldlM (reprieveViolating fh pod)
      (⟨removed.run, []⟩, 0)).mapError asStatus
    let r ← (groups.2.foldlM (reprieveNonViolating fh pod) violating.1).mapError asStatus
    return (r.victims, violating.2)

/-! ## What is assumed about the filters -/

/-- While the cycle state follows the pods of the node, the filters pass exactly if `F` holds
of the set of these pods; and they do not fail because a pod is missing. -/
structure FilterModel (fh : Handle σ) (preemptor : Pod) (Follows : σ → List Pod → Prop)
    (F : Set Pod → Prop) : Prop where
  removePod : ∀ {s s' : σ} {p : Pod} {pods pods' : List Pod}, Follows s pods →
    pods.Perm (p :: pods') →
    fh.runPreFilterExtensionRemovePod s preemptor p pods' = .ok s' → Follows s' pods'
  addPod : ∀ {s s' : σ} {p : Pod} {pods : List Pod}, Follows s pods →
    fh.runPreFilterExtensionAddPod s preemptor p (pods ++ [p]) = .ok s' →
    Follows s' (pods ++ [p])
  filters : ∀ {s : σ} {pods : List Pod}, Follows s pods →
    (fh.runFilterPluginsWithNominatedPods s preemptor pods = .ok () ↔ F {p | p ∈ pods})
  antitone : Antitone F

/-! ## Disruption budgets split the pods -/

lemma PDBFilter.perm_next (pdbs : List PodDisruptionBudget) (f : PDBFilter) (pod : Pod) :
    ((f.next pdbs pod).violatingPods ++ (f.next pdbs pod).nonViolatingPods).Perm
      (pod :: (f.violatingPods ++ f.nonViolatingPods)) := by
  unfold PDBFilter.next
  by_cases hviolated : (disruptPod pdbs f.pdbsAllowed pod).2 = true
  · simp only [hviolated, if_true]
    rw [append_assoc]
    exact perm_middle
  · simp only [hviolated, Bool.false_eq_true, if_false]
    rw [← append_assoc]
    exact perm_append_singleton pod _

lemma filterPodsWithPDBViolation_perm (pods : List Pod) (pdbs : List PodDisruptionBudget) :
    ((filterPodsWithPDBViolation pods pdbs).1 ++ (filterPodsWithPDBViolation pods pdbs).2).Perm
      pods := by
  have hfold : ∀ f : PDBFilter,
      ((pods.foldl (PDBFilter.next pdbs) f).violatingPods ++
        (pods.foldl (PDBFilter.next pdbs) f).nonViolatingPods).Perm
      (pods ++ (f.violatingPods ++ f.nonViolatingPods)) := by
    induction pods with
    | nil => exact fun f => .rfl
    | cons pod pods ih =>
      intro f
      refine (ih (f.next pdbs pod)).trans ?_
      exact ((f.perm_next pdbs pod).append_left pods).trans perm_middle
  refine (hfold ⟨pdbs.map (·.disruptionsAllowed), [], []⟩).trans ?_
  rw [append_nil]
  exact .of_eq (append_nil pods)

/-! ## The loop that removes pods -/

/-- The pods of lower priority than the preemptor. -/
def lowerPriority (preemptor p : Pod) : Bool := podPriority p < podPriority preemptor

/-- Pods are told apart by their UIDs. -/
def UniqueUIDs (pods : List Pod) : Prop := (pods.map (·.uid)).Nodup

variable {k : String}

lemma hasKey_iff {pod : Pod} : hasKey k pod = true ↔ pod.uid = k ∧ k ≠ "" := by
  unfold hasKey getPodKey
  split_ifs with h
  · rw [h]
    constructor
    · exact nofun
    · rintro ⟨rfl, hne⟩
      exact absurd rfl hne
  · simp only [beq_iff_eq]
    constructor
    · rintro rfl
      exact ⟨rfl, h⟩
    · rintro ⟨rfl, -⟩
      rfl

lemma getPodKey_eq_ok {pod : Pod} (h : getPodKey pod = .ok k) :
    pod.uid = k ∧ k ≠ "" := by
  rw [← hasKey_iff]
  unfold hasKey
  rw [h]
  exact beq_self_eq_true k

lemma UniqueUIDs.eq_of_hasKey {pods : List Pod} (h : UniqueUIDs pods) {a b : Pod} (ha : a ∈ pods)
    (hb : b ∈ pods) (hka : hasKey k a = true) (hkb : hasKey k b = true) :
    b = a :=
  inj_on_of_nodup_map h hb ha ((hasKey_iff.1 hkb).1.trans (hasKey_iff.1 hka).1.symm)

lemma removePod_ok {fh : Handle σ} {preemptor rpi : Pod} {d d' : DryRun σ}
    (h : d.removePod fh preemptor rpi = .ok d') :
    ∃ k, getPodKey rpi = .ok k ∧
      d.nodeInfo.pods.removeFirst (hasKey k) = some d'.nodeInfo.pods ∧
      fh.runPreFilterExtensionRemovePod d.state preemptor rpi d'.nodeInfo.pods.toList =
        .ok d'.state := by
  obtain ⟨k, hk, h⟩ := bind_eq_ok.1 h
  cases hremove : d.nodeInfo.pods.removeFirst (hasKey k) with
  | none =>
    rw [hremove] at h
    cases h
  | some pods =>
    rw [hremove] at h
    obtain ⟨state, hstate, h⟩ := bind_eq_ok.1 h
    cases h
    exact ⟨k, hk, hremove, hstate⟩

section

variable {fh : Handle σ} {preemptor : Pod} {Follows : σ → List Pod → Prop} {F : Set Pod → Prop}

/-- The loop that removes pods, after `i` iterations. -/
structure Removal.Inv (Follows : σ → List Pod → Prop) (preemptor : Pod) (pods : Slice Pod)
    (i : Nat) (r : Removal σ) : Prop where
  ranged : pods.Ranged (lowerPriority preemptor) i r.run.nodeInfo.pods
  victims : r.potentialVictims = (pods.toList.take i).filter (lowerPriority preemptor)
  follows : Follows r.run.state r.run.nodeInfo.pods.toList

lemma Removal.Inv.next (model : FilterModel fh preemptor Follows F) {pods : Slice Pod}
    (huids : UniqueUIDs pods.toList) {i : Nat} (hi : i < pods.len) {r r' : Removal σ}
    (h : r.Inv Follows preemptor pods i) (hnext : r.next fh preemptor i = .ok r') :
    r'.Inv Follows preemptor pods (i + 1) := by
  obtain ⟨pi, hpi⟩ : ∃ pi, pods.toList[i]? = some pi :=
    ⟨_, getElem?_eq_getElem (by rwa [Slice.length_toList])⟩
  have htake := Slice.Ranged.take_filter hpi (lowerPriority preemptor)
  unfold Removal.next at hnext
  rw [h.ranged.read hi, hpi] at hnext
  dsimp only at hnext
  split_ifs at hnext with hlower
  · obtain ⟨run, hrun, hnext⟩ := bind_eq_ok.1 hnext
    cases hnext
    obtain ⟨k, hk, hremove, hstate⟩ := removePod_ok hrun
    have hkey : hasKey k pi = true := hasKey_iff.2 (getPodKey_eq_ok hk)
    have hgone : lowerPriority preemptor pi = true := decide_eq_true hlower
    obtain ⟨hranged, hperm⟩ := h.ranged.remove hpi hgone hkey
      (fun b hb hkb => huids.eq_of_hasKey (mem_of_getElem? hpi) hb hkey hkb) hremove
    constructor
    · exact hranged
    · rw [htake, filter_cons_of_pos hgone, filter_nil, h.victims]
    · exact model.removePod h.follows hperm hstate
  · cases hnext
    have hgone : lowerPriority preemptor pi = false := decide_eq_false hlower
    constructor
    · exact h.ranged.keep hpi hgone
    · rw [htake, filter_cons_of_neg (by simp [hgone]), filter_nil, append_nil, h.victims]
    · exact h.follows

/-- The loop removes the pods of lower priority, although the array that it ranges over is
written to. -/
theorem removeLowerPriority_spec (model : FilterModel fh preemptor Follows F) {d : DryRun σ}
    (hfollows : Follows d.state d.nodeInfo.pods.toList)
    (huids : UniqueUIDs d.nodeInfo.pods.toList) {r : Removal σ}
    (h : removeLowerPriority fh preemptor d = .ok r) :
    r.potentialVictims = d.nodeInfo.pods.toList.filter (lowerPriority preemptor) ∧
      r.run.nodeInfo.pods.toList.Perm
        (d.nodeInfo.pods.toList.filter fun p => !lowerPriority preemptor p) ∧
      Follows r.run.state r.run.nodeInfo.pods.toList := by
  have hinv : r.Inv Follows preemptor d.nodeInfo.pods d.nodeInfo.pods.len := by
    refine foldlM_range_invariant _ (Removal.Inv Follows preemptor d.nodeInfo.pods) ?_ ?_ h
    · exact ⟨.start _ _, rfl, hfollows⟩
    · exact fun i hi r r' hr hnext => hr.next model huids hi hnext
  refine ⟨?_, hinv.ranged.finish, hinv.follows⟩
  rw [hinv.victims, ← Slice.length_toList, take_length]

/-- The pods have UIDs, each its own. -/
def HaveUIDs (pods : List Pod) : Prop := UniqueUIDs pods ∧ ∀ p ∈ pods, p.uid ≠ ""

/-- The loop asks the framework for the removal only: any filters will do. -/
lemma removal_model (fh : Handle σ) (preemptor : Pod) :
    FilterModel { fh with runFilterPluginsWithNominatedPods := fun _ _ _ => .ok () } preemptor
      (fun _ _ => True) (fun _ => True) where
  removePod _ _ _ := trivial
  addPod _ _ := trivial
  filters _ := iff_of_true rfl trivial
  antitone _ _ _ h := h

variable {p : Pod}

lemma exists_removeFirst {pods : Slice Pod} (hp : p ∈ pods.toList) (huid : p.uid ≠ "") :
    ∃ k pods', getPodKey p = .ok k ∧ pods.removeFirst (hasKey k) = some pods' := by
  obtain ⟨pods', h⟩ := Slice.exists_removeFirst hp (hasKey_iff.2 ⟨rfl, huid⟩)
  exact ⟨p.uid, pods', if_neg huid, h⟩

/-- No call of `RemovePod` in the loop fails. -/
lemma removal_finds (fh : Handle σ) (preemptor : Pod) {d : DryRun σ}
    (huids : HaveUIDs d.nodeInfo.pods.toList) {i : Nat} (hi : i < d.nodeInfo.pods.len)
    {r : Removal σ} (hr : (List.range i).foldlM (Removal.next fh preemptor) ⟨d, []⟩ = .ok r)
    (hp : r.run.nodeInfo.pods.backing[i]? = some p) :
    ∃ k pods, getPodKey p = .ok k ∧ r.run.nodeInfo.pods.removeFirst (hasKey k) = some pods := by
  have hinv : r.Inv (fun _ _ => True) preemptor d.nodeInfo.pods i := by
    refine foldlM_range_invariant _
      (Removal.Inv (fun _ _ => True) preemptor d.nodeInfo.pods) ?_ ?_ hr
    · exact ⟨.start _ _, rfl, trivial⟩
    · exact fun j hj r r' h hnext =>
        h.next (removal_model fh preemptor) huids.1 (hj.trans hi) hnext
  rw [hinv.ranged.read hi] at hp
  refine exists_removeFirst (hinv.ranged.elements.mem_iff.2 ?_) (huids.2 p (mem_of_getElem? hp))
  rw [Slice.Ranged.drop_eq_cons hp]
  exact mem_append_right _ mem_cons_self

/-! ## The loops that add pods back -/

/-- The dry run and the choices so far: the pods on the node, the victims. -/
structure Reprieve.Sim (Follows : σ → List Pod → Prop) (pods : List Pod) (r : Reprieve σ)
    (c : Greedy.Choice Pod) : Prop where
  kept : {p | p ∈ r.run.nodeInfo.pods.toList} = c.kept
  victims : r.victims = c.dropped
  onNode : ∀ p ∈ r.run.nodeInfo.pods.toList, p ∈ pods
  follows : Follows r.run.state r.run.nodeInfo.pods.toList

variable {l pods : List Pod}

lemma setOf_mem_concat :
    {q | q ∈ l ++ [p]} = insert p {q | q ∈ l} := by
  ext q
  rw [Set.mem_insert_iff, Set.mem_ofPred_eq, Set.mem_ofPred_eq, mem_append, mem_singleton, or_comm]

variable {c : Greedy.Choice Pod} {r r' : Reprieve σ}

/-- `reprievePod` makes a greedy step. -/
lemma Reprieve.Sim.step (model : FilterModel fh preemptor Follows F) (huids : UniqueUIDs pods)
    {fits : Bool} (h : r.Sim Follows pods c) (hp : p ∈ pods)
    (hstep : reprievePod fh preemptor r p = .ok (r', fits)) :
    r'.Sim Follows pods (step F c p) := by
  obtain ⟨run, hrun, hstep⟩ := bind_eq_ok.1 hstep
  obtain ⟨state, hstate, hrun⟩ := bind_eq_ok.1 hrun
  cases hrun
  rw [Slice.toList_append] at hstate
  have hfollows := model.addPod h.follows hstate
  have hfilters := model.filters hfollows
  rw [setOf_mem_concat, h.kept] at hfilters
  unfold DryRun.runFilters at hstep
  simp only [Slice.toList_append] at hstep
  have honNode : ∀ q ∈ r.run.nodeInfo.pods.toList ++ [p], q ∈ pods :=
    forall_mem_append.2 ⟨h.onNode, forall_mem_singleton.2 hp⟩
  cases hresult : fh.runFilterPluginsWithNominatedPods state preemptor
      (r.run.nodeInfo.pods.toList ++ [p]) with
  | ok u =>
    -- it fits, and the pod stays
    rw [hresult] at hstep
    cases hstep
    rw [step_of_allowed (hfilters.1 hresult)]
    refine ⟨?_, h.victims, ?_, ?_⟩
    · show {q | q ∈ (r.run.nodeInfo.pods.append p).toList} = _
      rw [Slice.toList_append, setOf_mem_concat, h.kept]
    · show ∀ q ∈ (r.run.nodeInfo.pods.append p).toList, q ∈ pods
      rwa [Slice.toList_append]
    · show Follows state (r.run.nodeInfo.pods.append p).toList
      rwa [Slice.toList_append]
  | error status =>
    -- it does not, and the pod is removed again
    rw [hresult] at hstep
    obtain ⟨run, hremoved, hstep⟩ := bind_eq_ok.1 hstep
    cases hstep
    have hnot : ¬F (insert p c.kept) := by
      rw [← hfilters, hresult]
      exact nofun
    obtain ⟨k, hk, hremove, hstate'⟩ := removePod_ok hremoved
    obtain ⟨-, b, -, hkb, hperm, -⟩ := Slice.removeFirst_spec hremove
    rw [Slice.toList_append] at hperm
    have hkey : hasKey k p = true := hasKey_iff.2 (getPodKey_eq_ok hk)
    obtain rfl := huids.eq_of_hasKey hp
      (honNode b (hperm.mem_iff.2 mem_cons_self)) hkey hkb
    have hback : run.nodeInfo.pods.toList.Perm r.run.nodeInfo.pods.toList :=
      (hperm.symm.trans (perm_append_singleton b _)).cons_inv
    rw [step_of_not_allowed hnot]
    refine ⟨?_, ?_, ?_, ?_⟩
    · rw [← h.kept]
      exact Set.ext fun q => hback.mem_iff
    · show r.victims ++ [b] = c.dropped ++ [b]
      rw [h.victims]
    · exact fun q hq => h.onNode q (hback.mem_iff.1 hq)
    · exact model.removePod hfollows hperm hstate'

lemma reprievePod_victims {fits : Bool}
    (h : reprievePod fh preemptor r p = .ok (r', fits)) :
    r'.victims = if fits then r.victims else r.victims ++ [p] := by
  obtain ⟨run, -, h⟩ := bind_eq_ok.1 h
  split at h
  · cases h
    rfl
  · obtain ⟨run', -, h⟩ := bind_eq_ok.1 h
    cases h
    rfl

/-- The loop over the violating victims is the other loop, and counts the victims. -/
lemma reprieveViolating_fold {r r' : Reprieve σ × Nat}
    (hrun : l.foldlM (reprieveViolating fh preemptor) r = .ok r')
    (hcount : r.2 = r.1.victims.length) :
    l.foldlM (reprieveNonViolating fh preemptor) r.1 = .ok r'.1 ∧
      r'.2 = r'.1.victims.length := by
  induction l generalizing r with
  | nil =>
    cases hrun
    exact ⟨rfl, hcount⟩
  | cons p l ih =>
    rw [foldlM_cons] at hrun
    obtain ⟨r1, hr1, hrun⟩ := bind_eq_ok.1 hrun
    obtain ⟨⟨r2, fits⟩, hstep, hr1⟩ := bind_eq_ok.1 hr1
    cases hr1
    rw [foldlM_cons, reprieveNonViolating, hstep]
    refine ih hrun ?_
    show (if !fits then r.2 + 1 else r.2) = r2.victims.length
    rw [reprievePod_victims hstep, hcount]
    cases fits with
    | true => rfl
    | false =>
      show r.1.victims.length + 1 = (r.1.victims ++ [p]).length
      rw [length_append, length_singleton]

lemma reprieveNonViolating_run (model : FilterModel fh preemptor Follows F)
    (huids : UniqueUIDs pods) (hl : ∀ p ∈ l, p ∈ pods)
    (h : r.Sim Follows pods c) (hrun : l.foldlM (reprieveNonViolating fh preemptor) r = .ok r') :
    r'.Sim Follows pods (run F c l) := by
  induction l generalizing r c with
  | nil =>
    cases hrun
    exact h
  | cons p l ih =>
    rw [foldlM_cons] at hrun
    obtain ⟨r1, hr1, hrun⟩ := bind_eq_ok.1 hrun
    obtain ⟨⟨r2, fits⟩, hstep, hr1⟩ := bind_eq_ok.1 hr1
    cases hr1
    exact ih (forall_mem_cons.1 hl).2
      (h.step model huids (hl p mem_cons_self) hstep) hrun

lemma selectVictimsOnNode_ok {sorting : SortSlice} {state : σ} {nodeInfo : NodeInfo}
    {pdbs : List PodDisruptionBudget} {victims : List Pod} {numViolatingVictim : Nat}
    (h : selectVictimsOnNode fh sorting state preemptor nodeInfo pdbs =
      .ok (victims, numViolatingVictim)) :
    ∃ (removed : Removal σ) (violating r : Reprieve σ),
      removeLowerPriority fh preemptor ⟨state, nodeInfo⟩ = .ok removed ∧
      removed.run.runFilters fh preemptor = .ok () ∧
      (filterPodsWithPDBViolation (sorting.sort removed.potentialVictims) pdbs).1.foldlM
        (reprieveNonViolating fh preemptor) ⟨removed.run, []⟩ = .ok violating ∧
      (filterPodsWithPDBViolation (sorting.sort removed.potentialVictims) pdbs).2.foldlM
        (reprieveNonViolating fh preemptor) violating = .ok r ∧
      victims = r.victims ∧ numViolatingVictim = violating.victims.length := by
  obtain ⟨removed, hremoved, h⟩ := bind_eq_ok.1 h
  by_cases hnone : removed.potentialVictims.isEmpty = true
  · rw [if_pos hnone] at h
    cases h
  rw [if_neg hnone] at h
  obtain ⟨⟨⟩, hfilters, h⟩ := bind_eq_ok.1 h
  obtain ⟨violating, hviol, h⟩ := bind_eq_ok.1 h
  obtain ⟨r, hr, h⟩ := bind_eq_ok.1 h
  cases h
  obtain ⟨hviol, hcount⟩ := reprieveViolating_fold (mapError_eq_ok.1 hviol) rfl
  exact ⟨removed, violating.1, r, mapError_eq_ok.1 hremoved, hfilters, hviol,
    mapError_eq_ok.1 hr, rfl, hcount⟩

/-- The groups in which the pods of lower priority are put back. -/
def groupsOf (preemptor : Pod) (pods : List Pod)
    (pdbs : List PodDisruptionBudget) : List Pod × List Pod :=
  filterPodsWithPDBViolation (sorting.sort (pods.filter (lowerPriority preemptor))) pdbs

/-- The choice before any pod is put back. -/
def otherPods (preemptor : Pod) (pods : List Pod) : Greedy.Choice Pod :=
  ⟨{p | p ∈ pods.filter fun p => !lowerPriority preemptor p}, []⟩

lemma groupsOf_perm (preemptor : Pod) (pods : List Pod) (pdbs : List PodDisruptionBudget) :
    ((groupsOf sorting preemptor pods pdbs).1 ++ (groupsOf sorting preemptor pods pdbs).2).Perm
      (pods.filter (lowerPriority preemptor)) :=
  (filterPodsWithPDBViolation_perm _ pdbs).trans (sorting.perm _)

/-- A successful call makes the greedy choices: first for the violating pods, then for the
others. -/
theorem selectVictimsOnNode_run (model : FilterModel fh preemptor Follows F)
    {sorting : SortSlice} {state : σ} {nodeInfo : NodeInfo} {pdbs : List PodDisruptionBudget}
    (hfollows : Follows state nodeInfo.pods.toList) (huids : UniqueUIDs nodeInfo.pods.toList)
    {victims : List Pod} {numViolatingVictim : Nat}
    (h : selectVictimsOnNode fh sorting state preemptor nodeInfo pdbs =
      .ok (victims, numViolatingVictim)) :
    let groups := groupsOf sorting preemptor nodeInfo.pods.toList pdbs
    let others := otherPods preemptor nodeInfo.pods.toList
    F others.kept ∧ victims = (run F others (groups.1 ++ groups.2)).dropped ∧
      numViolatingVictim = (run F others groups.1).dropped.length := by
  intro groups others
  obtain ⟨removed, violating, r, hremoved, hfilters, hviol, hr, rfl, rfl⟩ :=
    selectVictimsOnNode_ok h
  obtain ⟨hpotential, hpods, hfollows'⟩ := removeLowerPriority_spec model hfollows huids hremoved
  rw [hpotential] at hviol hr
  have hkept : {p | p ∈ removed.run.nodeInfo.pods.toList} = others.kept :=
    Set.ext fun p => hpods.mem_iff
  have hgroups : ∀ p ∈ groups.1 ++ groups.2, p ∈ nodeInfo.pods.toList := fun p hp =>
    mem_of_mem_filter ((groupsOf_perm ..).mem_iff.1 hp)
  have hstart : (⟨removed.run, []⟩ : Reprieve σ).Sim Follows nodeInfo.pods.toList others :=
    ⟨hkept, rfl, fun p hp => mem_of_mem_filter (hpods.mem_iff.1 hp), hfollows'⟩
  have hsim := reprieveNonViolating_run model huids
    (fun p hp => hgroups p (mem_append_left _ hp)) hstart hviol
  have hsim' := reprieveNonViolating_run model huids
    (fun p hp => hgroups p (mem_append_right _ hp)) hsim hr
  refine ⟨?_, ?_, ?_⟩
  · rw [← hkept]
    exact (model.filters hfollows').1 hfilters
  · rw [run_append]
    exact hsim'.victims
  · rw [hsim.victims]

lemma kept_otherPods (hF : Antitone F) (hallowed : F (otherPods preemptor pods).kept)
    (hl : l.Perm (pods.filter (lowerPriority preemptor))) :
    (run F (otherPods preemptor pods) l).kept =
      {p | p ∈ pods ∧ p ∉ (run F (otherPods preemptor pods) l).dropped} := by
  have htight : Greedy.Tight F (otherPods preemptor pods) := ⟨hallowed, nofun⟩
  rw [htight.kept_run hF l]
  ext p
  have hmem : ((p ∈ (otherPods preemptor pods).kept ∨ p ∈ (otherPods preemptor pods).dropped) ∨
      p ∈ l) ↔ p ∈ pods := by
    rw [hl.mem_iff, otherPods, Set.mem_ofPred_eq, mem_filter, mem_filter]
    cases lowerPriority preemptor p with
    | false => simp
    | true => simp
  rw [Set.mem_ofPred_eq, Set.mem_ofPred_eq, hmem]

lemma countP_dropped {l' : List Pod} (hnodup : (l ++ l').Nodup) (hnil : c.dropped = []) :
    (run F c (l ++ l')).dropped.countP (fun v => decide (v ∈ l)) =
      (run F c l).dropped.length := by
  obtain ⟨d, hd, hsub⟩ := dropped_run (F := F) (c := c) l
  obtain ⟨d', hd', hsub'⟩ := dropped_run (F := F) (c := run F c l) l'
  rw [hnil, nil_append] at hd
  rw [run_append, hd', hd, countP_append]
  have hin : d.countP (fun v => decide (v ∈ l)) = d.length :=
    countP_eq_length.2 fun v hv => decide_eq_true (hsub.subset hv)
  have hout : d'.countP (fun v => decide (v ∈ l)) = 0 := by
    refine countP_eq_zero.2 fun v hv hmem => ?_
    exact disjoint_of_nodup_append hnodup (of_decide_eq_true hmem) (hsub'.subset hv)
  rw [hin, hout, Nat.add_zero]

end

/-- If victims are found, they are pods of the node of strictly lower priority, the filters
pass without them and fail when any one of them is put back, and the number of violations is the
number of those among them that `filterPodsWithPDBViolation` calls violating. -/
theorem victims_minimal (fh : Handle σ) (sorting : SortSlice) {pod : Pod}
    {Follows : σ → List Pod → Prop} {F : Set Pod → Prop} (model : FilterModel fh pod Follows F)
    (state : σ) (nodeInfo : NodeInfo) (pdbs : List PodDisruptionBudget)
    (hfollows : Follows state nodeInfo.pods.toList) (huids : UniqueUIDs nodeInfo.pods.toList)
    {victims : List Pod} {numViolatingVictim : Nat}
    (h : selectVictimsOnNode fh sorting state pod nodeInfo pdbs =
      .ok (victims, numViolatingVictim)) :
    (∀ v ∈ victims, v ∈ nodeInfo.pods.toList ∧ podPriority v < podPriority pod) ∧
      victims.Nodup ∧
      F {p | p ∈ nodeInfo.pods.toList ∧ p ∉ victims} ∧
      (∀ v ∈ victims, ¬F (insert v {p | p ∈ nodeInfo.pods.toList ∧ p ∉ victims})) ∧
      numViolatingVictim = victims.countP fun v =>
        decide (v ∈ (filterPodsWithPDBViolation
          (sorting.sort (nodeInfo.pods.toList.filter (lowerPriority pod))) pdbs).1) := by
  have hperm := groupsOf_perm sorting pod nodeInfo.pods.toList pdbs
  obtain ⟨hallowed, rfl, rfl⟩ := selectVictimsOnNode_run model hfollows huids h
  have hnodup := hperm.nodup_iff.2 ((List.Nodup.of_map _ huids).filter _)
  have htight := Greedy.Tight.run model.antitone (⟨hallowed, nofun⟩ : Greedy.Tight F _)
    ((groupsOf sorting pod nodeInfo.pods.toList pdbs).1 ++
      (groupsOf sorting pod nodeInfo.pods.toList pdbs).2)
  have hkept := kept_otherPods model.antitone hallowed hperm
  obtain ⟨d, hd, hsub⟩ := dropped_run (F := F) (c := otherPods pod nodeInfo.pods.toList)
    ((groupsOf sorting pod nodeInfo.pods.toList pdbs).1 ++
      (groupsOf sorting pod nodeInfo.pods.toList pdbs).2)
  have hdrop := hd.trans (nil_append d)
  refine ⟨fun v hv => ?_, ?_, ?_, fun v hv => ?_, ?_⟩
  · rw [hdrop] at hv
    obtain ⟨hmem, hlower⟩ := mem_filter.1 (hperm.mem_iff.1 (hsub.subset hv))
    exact ⟨hmem, of_decide_eq_true hlower⟩
  · rw [hdrop]
    exact hnodup.sublist hsub
  · rw [← hkept]
    exact htight.allowed
  · rw [← hkept]
    exact htight.needed v hv
  · exact (countP_dropped hnodup rfl).symm

/-! ### A node with room for one pod -/

/-- The filters pass as long as there is at most one other pod. -/
def roomForOne : Handle Unit where
  runPreFilterExtensionRemovePod _ _ _ _ := .ok ()
  runPreFilterExtensionAddPod _ _ _ _ := .ok ()
  runFilterPluginsWithNominatedPods _ _ pods :=
    if pods.all fun p => pods.all fun q => p = q then .ok ()
    else .error ⟨.unschedulable, ["Too many pods"]⟩

lemma roomForOne_model (preemptor : Pod) :
    FilterModel roomForOne preemptor (fun _ _ => True) Set.Subsingleton where
  removePod _ _ _ := trivial
  addPod _ _ := trivial
  filters := by
    intro _ pods _
    unfold roomForOne
    by_cases hall : (pods.all fun p => pods.all fun q => p = q) = true
    · simp only [hall, if_true, true_iff]
      intro p hp q hq
      exact of_decide_eq_true (all_eq_true.1 (all_eq_true.1 hall p hp) q hq)
    · simp only [hall, Bool.false_eq_true, if_false, reduceCtorEq, false_iff]
      intro hsub
      refine hall (all_eq_true.2 fun p hp => all_eq_true.2 fun q hq => ?_)
      exact decide_eq_true (hsub hp hq)
  antitone _ _ hsub h := h.anti hsub

def appPod (uid : String) (priority : Int) : Pod :=
  ⟨uid, uid, "default", (∅ : Labels).insert "app" "web", some priority, some 0⟩

/-- Two pods, in an array with two more slots. -/
def fullNode : NodeInfo :=
  ⟨"node", ⟨[appPod "a" 0, appPod "b" 1, appPod "c" 0, appPod "d" 0], 2, by decide⟩⟩

/-- A budget that allows no disruption. -/
def strictBudget : PodDisruptionBudget :=
  ⟨"default", some (.ok ⟨false, fun l => l.lookup "app" == some "web"⟩), 0, ∅⟩

/-- Of two pods, the less important one is the victim, against the budget of both. -/
theorem victims_minimal_one :
    let kept := {p | p ∈ fullNode.pods.toList ∧ p ∉ [appPod "a" 0]}
    selectVictimsOnNode roomForOne (.insertion 0) () (appPod "new" 10) fullNode [strictBudget] =
        .ok ([appPod "a" 0], 1) ∧
      kept.Subsingleton ∧ ¬(insert (appPod "a" 0) kept).Subsingleton := by
  intro kept
  have hselect : selectVictimsOnNode roomForOne (.insertion 0) () (appPod "new" 10) fullNode
      [strictBudget] = .ok ([appPod "a" 0], 1) := by rfl
  obtain ⟨-, -, hkept, hneeded, -⟩ := victims_minimal roomForOne (.insertion 0)
    (roomForOne_model (appPod "new" 10)) () fullNode [strictBudget] trivial
    (by unfold UniqueUIDs; decide) hselect
  exact ⟨hselect, hkept, hneeded _ mem_cons_self⟩

/-- The loop that removes pods writes to the array that it ranges over. After it the potential
victims are the pods of lower priority, each once, the others are on the node, and no call of
`RemovePod` has failed. -/
theorem removal_visits_all (fh : Handle σ) (preemptor : Pod) (d : DryRun σ)
    (huids : HaveUIDs d.nodeInfo.pods.toList) :
    (∀ r, removeLowerPriority fh preemptor d = .ok r →
      r.potentialVictims = d.nodeInfo.pods.toList.filter (lowerPriority preemptor) ∧
        r.potentialVictims.Nodup ∧ r.run.nodeInfo.pods.toList.Perm
          (d.nodeInfo.pods.toList.filter fun p => !lowerPriority preemptor p)) ∧
      ∀ i < d.nodeInfo.pods.len, ∀ r p,
        (List.range i).foldlM (Removal.next fh preemptor) ⟨d, []⟩ = .ok r →
        r.run.nodeInfo.pods.backing[i]? = some p →
        ∃ k pods, getPodKey p = .ok k ∧
          r.run.nodeInfo.pods.removeFirst (hasKey k) = some pods := by
  refine ⟨fun r hr => ?_, fun i hi r p hr hp => removal_finds fh preemptor huids hi hr hp⟩
  obtain ⟨hvictims, hpods, -⟩ :=
    removeLowerPriority_spec (removal_model fh preemptor) trivial huids.1 hr
  refine ⟨hvictims, ?_, hpods⟩
  rw [hvictims]
  exact (List.Nodup.of_map _ huids.1).filter _

theorem removal_visits_all_full :
    ∃ r, removeLowerPriority roomForOne (appPod "new" 10) ⟨(), fullNode⟩ = .ok r ∧
      r.potentialVictims = [appPod "a" 0, appPod "b" 1] := by
  have huids : HaveUIDs fullNode.pods.toList := ⟨by unfold UniqueUIDs; decide, by decide⟩
  refine ⟨_, rfl, ?_⟩
  exact ((removal_visits_all roomForOne (appPod "new" 10) ⟨(), fullNode⟩ huids).1 _ rfl).1

/-- A pod without a UID is not removed. -/
theorem removal_needs_uid :
    let d : DryRun Unit := ⟨(), "node", ⟨[appPod "" 0], 1, by decide⟩⟩
    UniqueUIDs d.nodeInfo.pods.toList ∧
      removeLowerPriority roomForOne (appPod "new" 10) d =
        .error "Cannot get cache key for pod with empty UID" :=
  ⟨nodup_singleton _, rfl⟩

end Kubernetes.Scheduler.Preemption
