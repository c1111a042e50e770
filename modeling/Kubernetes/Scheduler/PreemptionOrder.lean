import Kubernetes.Best
import Kubernetes.Scheduler.Preemption

/-! # Choosing a node by its victims

`pickOneNodeForPreemption` takes the first victim of a node as one of the highest priority.
`selectVictimsOnNode` returns the victims that violate a disruption budget before the others,
each group by decreasing priority, so this is right only if the groups are in this order too.

Results:

1. `victims_sublist`: the victims are in the order of the two groups, whatever the filters say;
2. `pick_minimal_iff`: the lists of victims are ordered, and the node that is chosen has the
   least violations, highest priority, sum of priorities and number of victims, in this order,
   for all filters exactly if on no node a violating pod has a lower priority than another one.
-/

namespace Kubernetes.Scheduler.Preemption

open GoMap List

/-- A node and its `Victims`. -/
structure Candidate where
  name : String
  pods : List Pod
  numPDBViolations : Int

variable (now : Nat)

namespace Candidate

variable (c : Candidate)

/-- The priority of `victims.Pods[0]`, which is there. -/
def firstPriority : Int := (c.pods.head?.map podPriority).getD 0

/-- The sum of the priorities, each shifted to be at least zero. -/
def sumPriorities : Int := (c.pods.map fun pod => podPriority pod + 2 ^ 31).sum

def numPods : Int := c.pods.length

/-- `GetEarliestPodStartTime`, of the pods of the highest priority. -/
def getEarliestPodStartTime (c : Candidate) : Option Nat :=
  c.pods.head?.map fun first =>
    (c.pods.foldl (fun (earliest, maxPriority) pod =>
      if podPriority pod = maxPriority then
        (if getPodStartTime now pod < earliest then getPodStartTime now pod else earliest,
          maxPriority)
      else if podPriority pod > maxPriority then (getPodStartTime now pod, podPriority pod)
      else (earliest, maxPriority)) (getPodStartTime now first, podPriority first)).1

/-- The highest priority of the victims, wherever it is in the list. -/
def highestPriority : Int := (c.pods.map podPriority).max?.getD 0

/-- What is to be minimized, in this order. -/
def rank : List Int :=
  [c.numPDBViolations, c.highestPriority, c.sumPriorities, c.numPods]

end Candidate

/-- The node with the latest start time; nothing, as the index is out of range, without nodes. -/
def latestStart : List Candidate → Option Candidate
  | [] => none
  | first :: nodes =>
    match first.getEarliestPodStartTime now with
    | none => some first
    | some start =>
      some (nodes.foldl (fun (nodeToReturn, latest) node =>
        match node.getEarliestPodStartTime now with
        | none => (nodeToReturn, latest)
        | some start => if start > latest then (node, start) else (nodeToReturn, latest))
        (first, start)).1

/-- What the loops minimize, and the greatest `int32` or `int64` that they start with. -/
def stages : List ((Candidate → Int) × Int) :=
  [(Candidate.numPDBViolations, 2 ^ 31 - 1), (Candidate.firstPriority, 2 ^ 31 - 1),
    (Candidate.sumPriorities, 2 ^ 63 - 1), (Candidate.numPods, 2 ^ 31 - 1)]

/-- `pickOneNodeForPreemption`, for the nodes in the order of the range over the map. -/
def pickOneNodeForPreemption (nodesToVictims : List Candidate) : Option Candidate :=
  Best.narrow (latestStart now) stages nodesToVictims

/-- By decreasing priority. -/
def ByPriority (pods : List Pod) : Prop := pods.Pairwise fun a b => podPriority b ≤ podPriority a

/-- Sorting is by decreasing priority, also when the start times of pods read the clock. -/
def SortSlice.KeepsPriority (sorting : SortSlice) : Prop := ∀ pods, ByPriority (sorting.sort pods)

variable {σ : Type} {fh : Handle σ} {preemptor : Pod} {sorting : SortSlice}
  {pdbs : List PodDisruptionBudget} {node : NodeInfo}

/-- A candidate that `selectVictimsOnNode` can return for a node, for some filters. -/
def Candidate.From (sorting : SortSlice) (preemptor : Pod) (pdbs : List PodDisruptionBudget)
    (c : Candidate) (node : NodeInfo) : Prop :=
  ∃ (σ : Type) (fh : Handle σ) (state : σ) (n : Nat), c.numPDBViolations = n ∧
    selectVictimsOnNode fh sorting state preemptor node pdbs = .ok (c.pods, n)

/-- No pod that would violate a budget has a lower priority than one that would not. -/
def NodeInfo.Ordered (sorting : SortSlice) (preemptor : Pod) (pdbs : List PodDisruptionBudget)
    (node : NodeInfo) : Prop :=
  ∀ v ∈ (groupsOf sorting preemptor node.pods.toList pdbs).1,
    ∀ w ∈ (groupsOf sorting preemptor node.pods.toList pdbs).2, podPriority w ≤ podPriority v

/-- Less than `2 ^ 31` pods, with priorities that are an `int32`. -/
structure NodeInfo.InRange (node : NodeInfo) : Prop where
  len : node.pods.len < 2 ^ 31
  priority : ∀ p ∈ node.pods.toList, -2 ^ 31 ≤ podPriority p ∧ podPriority p < 2 ^ 31

/-! ## The order of the victims -/

lemma groups_sublist (pods : List Pod) (pdbs : List PodDisruptionBudget) :
    (filterPodsWithPDBViolation pods pdbs).1.Sublist pods ∧
      (filterPodsWithPDBViolation pods pdbs).2.Sublist pods := by
  have hfold := foldlM_eq_ok (ε := Empty) _ (PDBFilter.next pdbs) pods (fun _ _ _ => rfl)
    ⟨pdbs.map (·.disruptionsAllowed), [], []⟩
  have hviol := foldlM_sublist PDBFilter.violatingPods (by
    rintro f - pod ⟨⟩
    unfold PDBFilter.next
    dsimp only
    split_ifs
    · exact .inr rfl
    · exact .inl rfl) hfold
  have hother := foldlM_sublist PDBFilter.nonViolatingPods (by
    rintro f - pod ⟨⟩
    unfold PDBFilter.next
    dsimp only
    split_ifs
    · exact .inl rfl
    · exact .inr rfl) hfold
  obtain ⟨d, hd, hsub⟩ := hviol
  obtain ⟨d', hd', hsub'⟩ := hother
  constructor
  · exact (congrArg (·.Sublist pods) hd).mpr hsub
  · exact (congrArg (·.Sublist pods) hd').mpr hsub'

lemma reprieve_sublist {l : List Pod} {r r' : Reprieve σ}
    (h : l.foldlM (reprieveNonViolating fh preemptor) r = .ok r') :
    ∃ d, r'.victims = r.victims ++ d ∧ d.Sublist l := by
  refine foldlM_sublist _ ?_ h
  intro r r' p hstep
  obtain ⟨⟨r1, fits⟩, hstep, hr1⟩ := bind_eq_ok.1 hstep
  cases hr1
  rw [reprievePod_victims hstep]
  cases fits with
  | true => exact .inl rfl
  | false => exact .inr rfl

/-- The victims are in the order of the groups. -/
theorem victims_sublist {state : σ} (huids : UniqueUIDs node.pods.toList) {victims : List Pod}
    {n : Nat} (h : selectVictimsOnNode fh sorting state preemptor node pdbs = .ok (victims, n)) :
    let groups := groupsOf sorting preemptor node.pods.toList pdbs
    victims.Sublist (groups.1 ++ groups.2) ∧ n ≤ groups.1.length := by
  obtain ⟨removed, violating, r, hgone, -, hviol, hr, rfl, rfl⟩ := selectVictimsOnNode_ok h
  obtain ⟨hpotential, -, -⟩ :=
    removeLowerPriority_spec (removal_model fh preemptor) trivial huids hgone
  rw [hpotential] at hviol hr
  obtain ⟨d, hd, hsub⟩ := reprieve_sublist hviol
  obtain ⟨d', hd', hsub'⟩ := reprieve_sublist hr
  rw [hd', hd, nil_append]
  exact ⟨hsub.append hsub', hsub.length_le⟩

lemma groups_byPriority (hsort : sorting.KeepsPriority)
    (hordered : node.Ordered sorting preemptor pdbs) :
    let groups := groupsOf sorting preemptor node.pods.toList pdbs
    ByPriority (groups.1 ++ groups.2) := by
  obtain ⟨hviol, hother⟩ := groups_sublist
    (sorting.sort (node.pods.toList.filter (lowerPriority preemptor))) pdbs
  exact pairwise_append.2
    ⟨(hsort _).sublist hviol, (hsort _).sublist hother, hordered⟩

/-! ## A preemptor that fits only without any of them -/

/-- The filters fail as long as there is a pod of lower priority. -/
def needsAll : Handle Unit where
  runPreFilterExtensionRemovePod _ _ _ _ := .ok ()
  runPreFilterExtensionAddPod _ _ _ _ := .ok ()
  runFilterPluginsWithNominatedPods _ preemptor pods :=
    if pods.any (lowerPriority preemptor) then .error ⟨.unschedulable, ["Too many pods"]⟩
    else .ok ()

lemma exists_removal (preemptor : Pod) (huids : HaveUIDs node.pods.toList) :
    ∃ r, removeLowerPriority needsAll preemptor ⟨(), node⟩ = .ok r := by
  suffices hrange : ∀ i ≤ node.pods.len,
      ∃ r, (List.range i).foldlM (Removal.next needsAll preemptor) ⟨⟨(), node⟩, []⟩ = .ok r from
    hrange _ le_rfl
  -- every slot that the loop reads holds a pod that `RemovePod` finds
  intro i
  induction i with
  | zero => exact fun _ => ⟨_, rfl⟩
  | succ i ih =>
    intro hi
    obtain ⟨r, hr⟩ := ih (Nat.le_of_succ_le hi)
    rw [List.range_succ, foldlM_append, hr]
    cases hp : r.run.nodeInfo.pods.backing[i]? with
    | none => exact ⟨r, by simp [Removal.next, hp, bind, Except.bind, pure, Except.pure]⟩
    | some p =>
      obtain ⟨k, pods, hk, hremove⟩ := removal_finds needsAll preemptor huids hi hr hp
      by_cases hlower : podPriority p < podPriority preemptor
      · exact ⟨_, by simp [Removal.next, hp, hlower, DryRun.removePod, hk, hremove, needsAll, bind,
          Except.bind, pure, Except.pure]; rfl⟩
      · exact ⟨r, by simp [Removal.next, hp, hlower, bind, Except.bind, pure, Except.pure]⟩

lemma reprievePod_needsAll (r : Reprieve Unit) {p : Pod} (huid : p.uid ≠ "")
    (hlower : lowerPriority preemptor p = true) :
    ∃ run, reprievePod needsAll preemptor r p = .ok (⟨run, r.victims ++ [p]⟩, false) := by
  have hmem : p ∈ (r.run.nodeInfo.pods.append p).toList := by simp [Slice.toList_append]
  obtain ⟨k, pods, hk, hremove⟩ := exists_removeFirst hmem huid
  refine ⟨⟨(), { r.run.nodeInfo with pods }⟩, ?_⟩
  simp [reprievePod, DryRun.addPod, DryRun.runFilters, DryRun.removePod, needsAll,
    Slice.toList_append, hlower, hk, hremove, bind, Except.bind, pure, Except.pure]

lemma exists_select (huids : HaveUIDs node.pods.toList)
    (hsome : (groupsOf sorting preemptor node.pods.toList pdbs).1 ≠ []) :
    let groups := groupsOf sorting preemptor node.pods.toList pdbs
    ∃ n, selectVictimsOnNode needsAll sorting () preemptor node pdbs =
      .ok (groups.1 ++ groups.2, n) := by
  intro groups
  obtain ⟨removed, hgone⟩ := exists_removal preemptor huids
  obtain ⟨hpotential, hpods, -⟩ :=
    removeLowerPriority_spec (removal_model needsAll preemptor) trivial huids.1 hgone
  have hperm := groupsOf_perm sorting preemptor node.pods.toList pdbs
  have hpod : ∀ p ∈ groups.1 ++ groups.2, p.uid ≠ "" ∧ lowerPriority preemptor p = true := by
    intro p hp
    obtain ⟨hmem, hlower⟩ := mem_filter.1 (hperm.mem_iff.1 hp)
    exact ⟨huids.2 p hmem, hlower⟩
  -- no pod of either group can be put back
  have hviol : ∀ r : Reprieve Unit × Nat, ∀ p ∈ groups.1,
      ∃ r', reprieveViolating needsAll preemptor r p = .ok r' ∧
        r'.1.victims = r.1.victims ++ [p] := by
    intro r p hp
    obtain ⟨huid, hlower⟩ := hpod p (mem_append_left _ hp)
    obtain ⟨run, hrun⟩ := reprievePod_needsAll r.1 huid hlower
    rw [reprieveViolating, hrun]
    exact ⟨_, rfl, rfl⟩
  have hother : ∀ r : Reprieve Unit, ∀ p ∈ groups.2,
      ∃ r', reprieveNonViolating needsAll preemptor r p = .ok r' ∧
        r'.victims = r.victims ++ [p] := by
    intro r p hp
    obtain ⟨huid, hlower⟩ := hpod p (mem_append_right _ hp)
    obtain ⟨run, hrun⟩ := reprievePod_needsAll r huid hlower
    rw [reprieveNonViolating, hrun]
    exact ⟨_, rfl, rfl⟩
  obtain ⟨violating, hviol, hvictims⟩ :=
    exists_foldlM_append _ (Reprieve.victims ∘ Prod.fst) hviol (⟨removed.run, []⟩, 0)
  obtain ⟨r, hr, hvictims'⟩ := exists_foldlM_append _ Reprieve.victims hother violating.1
  have hempty : ¬removed.potentialVictims.isEmpty = true := by
    rw [hpotential, List.isEmpty_iff]
    intro hnil
    rw [hnil] at hperm
    exact hsome (append_eq_nil_iff.1 hperm.eq_nil).1
  -- without the pods of lower priority the preemptor fits
  have hfits : removed.run.runFilters needsAll preemptor = .ok () := by
    refine if_neg fun hany => ?_
    obtain ⟨p, hp, hlower⟩ := any_eq_true.1 hany
    have hnot := (mem_filter.1 (hpods.mem_iff.1 hp)).2
    rw [hlower] at hnot
    cases hnot
  replace hvictims' : r.victims = groups.1 ++ groups.2 :=
    hvictims'.trans (congrArg (· ++ groups.2) hvictims)
  refine ⟨violating.2, bind_eq_ok.2 ⟨removed, mapError_eq_ok.2 hgone, ?_⟩⟩
  rw [if_neg hempty, hfits, hpotential]
  refine bind_eq_ok.2 ⟨(), rfl, bind_eq_ok.2 ⟨violating, mapError_eq_ok.2 hviol, ?_⟩⟩
  refine bind_eq_ok.2 ⟨r, mapError_eq_ok.2 hr, ?_⟩
  rw [hvictims']
  rfl

/-! ## The choice -/

lemma latestStart_mem (l : List Candidate) (hne : l ≠ []) :
    ∃ x ∈ l, latestStart now l = some x := by
  obtain ⟨first, nodes, rfl⟩ := exists_cons_of_ne_nil hne
  rw [latestStart]
  split
  · exact ⟨first, mem_cons_self, rfl⟩
  refine ⟨_, ?_, rfl⟩
  refine List.foldlRecOn nodes _
    (motive := fun (r : Candidate × Nat) => r.1 ∈ first :: nodes) mem_cons_self ?_
  intro r hr node hnode
  dsimp only
  split
  · exact hr
  · split_ifs
    · exact mem_cons_of_mem _ hnode
    · exact hr

lemma Candidate.firstPriority_eq {c : Candidate} (hsorted : ByPriority c.pods)
    (hne : c.pods ≠ []) : c.firstPriority = c.highestPriority := by
  obtain ⟨p, pods, hpods⟩ := exists_cons_of_ne_nil hne
  unfold firstPriority highestPriority
  rw [hpods] at hsorted ⊢
  have hmax : ((p :: pods).map podPriority).max? = some (podPriority p) := by
    refine max?_eq_some_iff.2 ⟨mem_cons_self, ?_⟩
    intro b hb
    obtain ⟨q, hq, rfl⟩ := mem_map.1 hb
    rcases mem_cons.1 hq with rfl | hq
    · exact le_rfl
    · exact rel_of_pairwise_cons hsorted hq
  rw [hmax]
  rfl

/-- The numbers of a candidate do not exceed the ones that the loops start with. -/
lemma Candidate.From.bounds {c : Candidate} (huids : UniqueUIDs node.pods.toList)
    (hrange : node.InRange) (h : c.From sorting preemptor pdbs node) (hne : c.pods ≠ []) :
    ∀ stage ∈ stages, stage.1 c ≤ stage.2 := by
  obtain ⟨σ, fh, state, n, hn, hselect⟩ := h
  obtain ⟨hsub, hcount⟩ := victims_sublist huids hselect
  have hperm := groupsOf_perm sorting preemptor node.pods.toList pdbs
  have hpriority : ∀ p ∈ c.pods, podPriority p < 2 ^ 31 := fun p hp =>
    (hrange.priority p (mem_of_mem_filter (hperm.mem_iff.1 (hsub.subset hp)))).2
  have htotal := hperm.length_eq.trans_le (length_filter_le _ _)
  have hlen := hrange.len
  rw [Slice.length_toList, length_append] at htotal
  have hpods := hsub.length_le
  rw [length_append] at hpods
  have hsum := sum_le_card_nsmul (c.pods.map fun pod => podPriority pod + 2 ^ 31) (2 ^ 32) (by
    intro x hx
    obtain ⟨p, hp, rfl⟩ := mem_map.1 hx
    have := hpriority p hp
    omega)
  rw [length_map, nsmul_eq_mul] at hsum
  intro stage hstage
  simp only [stages, mem_cons, not_mem_nil, or_false] at hstage
  rcases hstage with rfl | rfl | rfl | rfl
  · dsimp only
    omega
  · obtain ⟨p, pods, hpods⟩ := exists_cons_of_ne_nil hne
    have hfirst := hpriority p (hpods ▸ mem_cons_self)
    show ((c.pods.head?.map podPriority).getD 0 : Int) ≤ _
    rw [hpods]
    exact Int.le_sub_one_of_lt hfirst
  · dsimp only [Candidate.sumPriorities]
    omega
  · dsimp only [Candidate.numPods]
    omega

/-- In whatever way filters fail, the victims of the nodes are ordered by decreasing priority and
the candidate that is chosen is minimal, exactly if on every node the pods that would violate a
budget have at least the priorities of the others. -/
theorem pick_minimal_iff (sorting : SortSlice) (hsort : sorting.KeepsPriority) (preemptor : Pod)
    (pdbs : List PodDisruptionBudget) (now : Nat) (nodes : List NodeInfo)
    (hnodes : ∀ node ∈ nodes, HaveUIDs node.pods.toList ∧ node.InRange) :
    (∀ candidates : List Candidate, candidates ≠ [] →
      (∀ c ∈ candidates, c.pods ≠ [] ∧ ∃ node ∈ nodes, c.From sorting preemptor pdbs node) →
      (∀ c ∈ candidates, ByPriority c.pods) ∧
        ∃ chosen ∈ candidates, pickOneNodeForPreemption now candidates = some chosen ∧
          ∀ c ∈ candidates, ¬c.rank < chosen.rank) ↔
      ∀ node ∈ nodes, node.Ordered sorting preemptor pdbs := by
  constructor
  · -- where none can be put back, the victims are one group after the other
    intro h node hnode v hv w hw
    obtain ⟨n, hselect⟩ := exists_select (hnodes node hnode).1 (ne_nil_of_mem hv)
    let groups := groupsOf sorting preemptor node.pods.toList pdbs
    have hfrom : ∀ c ∈ [(⟨node.nodeName, groups.1 ++ groups.2, n⟩ : Candidate)],
        c.pods ≠ [] ∧ ∃ node ∈ nodes, c.From sorting preemptor pdbs node := by
      intro c hc
      rw [mem_singleton.1 hc]
      exact ⟨ne_nil_of_mem (mem_append_left _ hv), node, hnode, Unit, needsAll, (), n,
        rfl, hselect⟩
    have hsorted := (h _ (cons_ne_nil _ _) hfrom).1 _ mem_cons_self
    exact (pairwise_append.1 hsorted).2.2 v hv w hw
  · -- the first victim has the highest priority, so that the loops compare the ranks
    intro hordered candidates hne hcandidates
    have hsorted : ∀ c ∈ candidates, ByPriority c.pods := by
      intro c hc
      obtain ⟨-, node, hnode, σ, fh, state, n, -, hselect⟩ := hcandidates c hc
      exact (groups_byPriority hsort (hordered node hnode)).sublist
        (victims_sublist (hnodes node hnode).1.1 hselect).1
    have hrank : ∀ c ∈ candidates, c.rank = stages.map fun stage => stage.1 c := by
      intro c hc
      rw [Candidate.rank, ← c.firstPriority_eq (hsorted c hc) (hcandidates c hc).1]
      rfl
    have hbound : ∀ stage ∈ stages, ∀ c ∈ candidates, stage.1 c ≤ stage.2 := by
      intro stage hstage c hc
      obtain ⟨hpods, node, hnode, hfrom⟩ := hcandidates c hc
      exact hfrom.bounds (hnodes node hnode).1.1 (hnodes node hnode).2 hpods stage hstage
    obtain ⟨x, hx, heq, hmin⟩ := Best.narrow_minimal (latestStart_mem now) hne hbound
    refine ⟨hsorted, x, hx, heq, fun c hc => ?_⟩
    rw [hrank c hc, hrank x hx]
    exact hmin c hc

def otherPod (uid : String) (priority : Int) : Pod := { appPod uid priority with labels := ∅ }

/-- A pod that the budget protects, and another one. -/
def mixedNode (name : String) (p q : Int) : NodeInfo :=
  ⟨name, ⟨[appPod (name ++ "/a") p, otherPod (name ++ "/b") q], 2, le_rfl⟩⟩

lemma keepsPriority_insertion : (SortSlice.insertion now).KeepsPriority := by
  intro pods
  refine (pairwise_insertionSort (AtLeastAsImportant now) pods).imp ?_
  intro a b hab
  have hcases := atLeastAsImportant_iff.1 hab
  omega

theorem pick_minimal_ordered :
    let nodes := [mixedNode "n" 1 0]
    ∀ candidates : List Candidate, candidates ≠ [] →
      (∀ c ∈ candidates, c.pods ≠ [] ∧
        ∃ node ∈ nodes, c.From (.insertion 0) (appPod "new" 10) [strictBudget] node) →
      (∀ c ∈ candidates, ByPriority c.pods) ∧
        ∃ chosen ∈ candidates, pickOneNodeForPreemption 0 candidates = some chosen ∧
          ∀ c ∈ candidates, ¬c.rank < chosen.rank := by
  refine (pick_minimal_iff (.insertion 0) (keepsPriority_insertion 0) (appPod "new" 10)
    [strictBudget] 0 [mixedNode "n" 1 0] ?_).2 ?_
  · intro node hnode
    rw [mem_singleton.1 hnode]
    exact ⟨⟨by unfold UniqueUIDs; decide, by decide⟩, by decide, by decide⟩
  · intro node hnode
    rw [mem_singleton.1 hnode]
    unfold NodeInfo.Ordered
    decide

/-- On the first node a victim of priority nine comes after one of priority zero. The node is chosen
although the victims of the second node have lower priorities. -/
theorem pick_not_minimal :
    let pod := appPod "new" 10
    let first : Candidate := ⟨"n", [appPod "n/a" 0, otherPod "n/b" 9], 1⟩
    let second : Candidate := ⟨"m", [appPod "m/a" 1, otherPod "m/b" 0], 1⟩
    selectVictimsOnNode needsAll (.insertion 0) () pod (mixedNode "n" 0 9) [strictBudget] =
        .ok (first.pods, 1) ∧
      selectVictimsOnNode needsAll (.insertion 0) () pod (mixedNode "m" 1 0) [strictBudget] =
        .ok (second.pods, 1) ∧
      ¬ByPriority first.pods ∧ pickOneNodeForPreemption 0 [first, second] = some first ∧
      second.rank < first.rank := by
  refine ⟨rfl, rfl, ?_, rfl, ?_⟩
  · unfold ByPriority
    decide
  · decide

end Kubernetes.Scheduler.Preemption
