import Kubernetes.CountMap
import Kubernetes.Scheduler.NodeInfo

/-! # Counting the matches of affinity terms

The filter of the `interpodaffinity` plugin works on three maps, from a topology key and
value to the number of matched terms:

* the anti-affinity terms of existing pods that match the incoming pod;
* the affinity terms of the incoming pod, for the existing pods that match all of them;
* the anti-affinity terms of the incoming pod that match an existing pod.

`PreFilter` counts them for a whole snapshot, with one map for each node that are merged
afterwards; `AddPod` and `RemovePod` change the counts by one pod, and delete an entry that
falls to zero. Whether there are entries at all decides about a pod that has affinity to
itself, so the two have to agree on the entries and not only on the counts.

What a pod adds to a map is the same list of topology pairs on both ways (`existingPairs`,
`affinityPairs`, `antiAffinityPairs`), and what a map should hold is their number over the
cluster (`Counted`).

Results:

1. `counted_preFilter`: `PreFilter` counts the cluster that its snapshot shows, for all
   orders in which the nodes are processed and the maps are visited;
2. `Counted.add`, `Counted.remove`: so do the incremental updates;
3. `affinity_incremental`: after any sequence of them the maps are those that `PreFilter`
   would compute, and `Filter` gives the same verdict on every node.
-/

namespace Kubernetes.Scheduler.InterPodAffinity

open GoMap CountMap Option
open List hiding count

/-! ## Pods and their affinity terms -/

/-- `v1.PodAffinityTerm` -/
structure PodAffinityTerm where
  labelSelector : LabelSelector
  namespaces : List String
  topologyKey : String
  namespaceSelector : LabelSelector

/-- `v1.PodAffinity` and `v1.PodAntiAffinity`; the weights of the preferred terms are left
out. -/
structure PodAffinity where
  required : List PodAffinityTerm
  preferred : List PodAffinityTerm

structure Affinity where
  podAffinity : Option PodAffinity
  podAntiAffinity : Option PodAffinity

structure Pod where
  podNamespace : String
  labels : Labels
  affinity : Option Affinity

/-- `framework.AffinityTerm`: a term with its selectors parsed. -/
structure AffinityTerm where
  namespaces : Finset String
  selector : Selector
  topologyKey : String
  namespaceSelector : Selector

def AffinityTerm.matches (t : AffinityTerm) (pod : Pod) (nsLabels : Labels)
    (nsSelectorEnabled : Bool) : Bool :=
  if pod.podNamespace ∈ t.namespaces ∨
      (nsSelectorEnabled && t.namespaceSelector.selects nsLabels) = true then
    t.selector.selects pod.labels
  else false

variable (pod : Pod)

def getNamespacesFromPodAffinityTerm (term : PodAffinityTerm) : Finset String :=
  if term.namespaces.isEmpty && term.namespaceSelector.isNone then {pod.podNamespace}
  else term.namespaces.toFinset

def newAffinityTerm (term : PodAffinityTerm) : Except String AffinityTerm := do
  let selector ← labelSelectorAsSelector term.labelSelector
  let namespaces := getNamespacesFromPodAffinityTerm pod term
  let nsSelector ← labelSelectorAsSelector term.namespaceSelector
  return ⟨namespaces, selector, term.topologyKey, nsSelector⟩

/-- `getAffinityTerms` and `getWeightedAffinityTerms`: no terms if one fails to parse. -/
def getAffinityTerms (v1Terms : List PodAffinityTerm) : Except String (List AffinityTerm) :=
  v1Terms.mapM (newAffinityTerm pod)

variable (affinity : Option Affinity)

def getPodAffinityTerms : List PodAffinityTerm :=
  ((affinity.bind (·.podAffinity)).map (·.required)).getD []

def getPodAntiAffinityTerms : List PodAffinityTerm :=
  ((affinity.bind (·.podAntiAffinity)).map (·.required)).getD []

/-- `framework.PodInfo`. The preferred terms are used for scoring only. -/
structure PodInfo where
  pod : Pod
  requiredAffinityTerms : List AffinityTerm
  requiredAntiAffinityTerms : List AffinityTerm
  parseError : List String

/-- The message of a failed parse, with the name of its terms. -/
def parseErrs (name : String) : Except String (List AffinityTerm) → List String
  | .ok _ => []
  | .error err => [name ++ ": " ++ err]

/-- The terms; nil if they failed to parse. -/
def termsOrNil : Except String (List AffinityTerm) → List AffinityTerm
  | .ok terms => terms
  | .error _ => []

def newPodInfo : PodInfo :=
  let preferredAffinityTerms :=
    ((pod.affinity.bind (·.podAffinity)).map (·.preferred)).getD []
  let preferredAntiAffinityTerms :=
    ((pod.affinity.bind (·.podAntiAffinity)).map (·.preferred)).getD []
  let requiredAffinityTerms := getAffinityTerms pod (getPodAffinityTerms pod.affinity)
  let requiredAntiAffinityTerms := getAffinityTerms pod (getPodAntiAffinityTerms pod.affinity)
  { pod
    requiredAffinityTerms := termsOrNil requiredAffinityTerms
    requiredAntiAffinityTerms := termsOrNil requiredAntiAffinityTerms
    parseError :=
      parseErrs "requiredAffinityTerms" requiredAffinityTerms ++
      parseErrs "requiredAntiAffinityTerms" requiredAntiAffinityTerms ++
      parseErrs "preferredAffinityTerms" (getAffinityTerms pod preferredAffinityTerms) ++
      parseErrs "preferredAntiAffinityTerms" (getAffinityTerms pod preferredAntiAffinityTerms) }

def podWithRequiredAntiAffinity (p : Pod) : Bool :=
  (p.affinity.bind (·.podAntiAffinity)).any fun a => !a.required.isEmpty

/-! ## The snapshot -/

/-- `framework.NodeInfo`. The pods with required anti-affinity are kept apart. -/
structure NodeInfo where
  node : Option Node
  pods : List Pod
  podsWithRequiredAntiAffinity : List Pod
  subset : podsWithRequiredAntiAffinity.Perm (pods.filter podWithRequiredAntiAffinity)

/-- The snapshot: its nodes, and those that have pods with required anti-affinity. -/
structure Snapshot where
  nodeInfoList : List NodeInfo
  havePodsWithRequiredAntiAffinityNodeInfoList : List NodeInfo
  subset : havePodsWithRequiredAntiAffinityNodeInfoList.Perm
    (nodeInfoList.filter fun n => !n.podsWithRequiredAntiAffinity.isEmpty)

/-! ## Topology pairs and their counts -/

structure TopologyPair where
  key : String
  value : String
deriving DecidableEq

abbrev TopologyToMatchedTermCount := GoMap TopologyPair Int

variable (iter : IterOrder TopologyPair) (m : TopologyToMatchedTermCount)

namespace TopologyToMatchedTermCount

def append (m toAppend : TopologyToMatchedTermCount) : TopologyToMatchedTermCount :=
  CountMap.merge iter m toAppend

def clone (m : TopologyToMatchedTermCount) : TopologyToMatchedTermCount :=
  append iter ∅ m

def update (node : Node) (tk : String) (value : Int) : TopologyToMatchedTermCount :=
  match node.labels.lookup tk with
  | some tv => CountMap.update m ⟨tk, tv⟩ value
  | none => m

end TopologyToMatchedTermCount

variable (terms : List AffinityTerm)

/-- Whether the pod matches all the terms, and there are any. The terms are those of an
incoming pod, whose namespace selectors are merged into the namespaces. -/
def podMatchesAllAffinityTerms (pod : Pod) (enableNamespaceSelector : Bool) : Bool :=
  !terms.isEmpty && terms.all fun t => t.matches pod ∅ enableNamespaceSelector

namespace TopologyToMatchedTermCount

def updateWithAffinityTerms (terms : List AffinityTerm)
    (pod : Pod) (node : Node) (value : Int) (enableNamespaceSelector : Bool) :
    TopologyToMatchedTermCount :=
  if podMatchesAllAffinityTerms terms pod enableNamespaceSelector then
    terms.foldl (fun m t => update m node t.topologyKey value) m
  else m

def updateWithAntiAffinityTerms (terms : List AffinityTerm)
    (pod : Pod) (nsLabels : Labels) (node : Node) (value : Int) (enableNamespaceSelector : Bool) :
    TopologyToMatchedTermCount :=
  terms.foldl (fun m t =>
    if t.matches pod nsLabels enableNamespaceSelector then update m node t.topologyKey value
    else m) m

end TopologyToMatchedTermCount

/-! ## The state of the filter -/

structure PreFilterState where
  existingAntiAffinityCounts : TopologyToMatchedTermCount
  affinityCounts : TopologyToMatchedTermCount
  antiAffinityCounts : TopologyToMatchedTermCount
  podInfo : PodInfo
  namespaceLabels : Labels
  enableNamespaceSelector : Bool

namespace PreFilterState

def clone (s : PreFilterState) : PreFilterState :=
  { s with
    affinityCounts := s.affinityCounts.clone iter
    antiAffinityCounts := s.antiAffinityCounts.clone iter
    existingAntiAffinityCounts := s.existingAntiAffinityCounts.clone iter }

def updateWithPod (s : PreFilterState) (pInfo : PodInfo) (node : Node) (multiplier : Int) :
    PreFilterState :=
  { s with
    existingAntiAffinityCounts := s.existingAntiAffinityCounts.updateWithAntiAffinityTerms
      pInfo.requiredAntiAffinityTerms s.podInfo.pod s.namespaceLabels node multiplier
      s.enableNamespaceSelector
    affinityCounts := s.affinityCounts.updateWithAffinityTerms
      s.podInfo.requiredAffinityTerms pInfo.pod node multiplier s.enableNamespaceSelector
    antiAffinityCounts := s.antiAffinityCounts.updateWithAntiAffinityTerms
      s.podInfo.requiredAntiAffinityTerms pInfo.pod ∅ node multiplier s.enableNamespaceSelector }

end PreFilterState

/-! ## PreFilter -/

/-- The text of an aggregate of errors; an error that comes again is left out. -/
def aggregate (errs : List String) : String :=
  match errs.eraseDups with
  | [err] => err
  | seen => "[" ++ ", ".intercalate seen ++ "]"

/-- `NamespaceLister`: the names of the namespaces that a selector selects, and the labels of
a namespace. -/
structure NamespaceLister where
  list : Selector → Except String (List String)
  get : String → Except String Labels

structure Plugin where
  nsLister : NamespaceLister
  enableNamespaceSelector : Bool

/-- The order in which the nodes' results are stored, and that of ranges over maps. -/
structure Orders where
  existing : IterOrder TopologyToMatchedTermCount
  incoming : IterOrder (TopologyToMatchedTermCount × TopologyToMatchedTermCount)
  pairs : IterOrder TopologyPair

def getNamespaceLabelsSnapshot (ns : String) (nsLister : NamespaceLister) : Labels :=
  match nsLister.get ns with
  | .ok labels => labels
  | .error _ => ∅

variable (podInfo : PodInfo)

namespace Plugin

def mergeAffinityTermNamespacesIfNotEmpty (pl : Plugin) (t : AffinityTerm) :
    Except String AffinityTerm :=
  if t.namespaceSelector.empty then .ok t
  else do
    let ns ← pl.nsLister.list t.namespaceSelector
    return { t with
      namespaces := t.namespaces ∪ ns.toFinset
      namespaceSelector := .nothing }

/-- `processNode` of `getExistingAntiAffinityCounts`: nothing if the node is not found or its
map is empty. -/
def existingOfNode (nsLabels : Labels) (enableNamespaceSelector : Bool)
    (nodeInfo : NodeInfo) : Option TopologyToMatchedTermCount :=
  match nodeInfo.node with
  | none => none
  | some node =>
    let topoMap := nodeInfo.podsWithRequiredAntiAffinity.foldl
      (fun (topoMap : TopologyToMatchedTermCount) existingPod =>
        topoMap.updateWithAntiAffinityTerms (newPodInfo existingPod).requiredAntiAffinityTerms pod
          nsLabels node 1 enableNamespaceSelector) ∅
    if !topoMap.keys.isEmpty then some topoMap else none

def getExistingAntiAffinityCounts (orders : Orders) (pod : Pod) (nsLabels : Labels)
    (nodes : List NodeInfo) (enableNamespaceSelector : Bool) : TopologyToMatchedTermCount :=
  let topoMaps := orders.existing.order
    (nodes.filterMap (existingOfNode pod nsLabels enableNamespaceSelector))
  topoMaps.foldl (fun result topoMap => result.append orders.pairs topoMap) ∅

/-- `processNode` of `getIncomingAffinityAntiAffinityCounts`. -/
def incomingOfNode (enableNamespaceSelector : Bool) (nodeInfo : NodeInfo) :
    Option (TopologyToMatchedTermCount × TopologyToMatchedTermCount) :=
  match nodeInfo.node with
  | none => none
  | some node =>
    let affinity := nodeInfo.pods.foldl
      (fun (affinity : TopologyToMatchedTermCount) existingPod =>
        affinity.updateWithAffinityTerms podInfo.requiredAffinityTerms existingPod node 1
          enableNamespaceSelector) ∅
    let antiAffinity := nodeInfo.pods.foldl
      (fun (antiAffinity : TopologyToMatchedTermCount) existingPod =>
        antiAffinity.updateWithAntiAffinityTerms podInfo.requiredAntiAffinityTerms existingPod ∅
          node 1 enableNamespaceSelector) ∅
    if !affinity.keys.isEmpty || !antiAffinity.keys.isEmpty then some (affinity, antiAffinity)
    else none

def getIncomingAffinityAntiAffinityCounts (orders : Orders) (podInfo : PodInfo)
    (allNodes : List NodeInfo) (enableNamespaceSelector : Bool) :
    TopologyToMatchedTermCount × TopologyToMatchedTermCount :=
  if podInfo.requiredAffinityTerms.isEmpty && podInfo.requiredAntiAffinityTerms.isEmpty then
    (∅, ∅)
  else
    let lists := orders.incoming.order
      (allNodes.filterMap (incomingOfNode podInfo enableNamespaceSelector))
    (lists.foldl (fun counts list => counts.append orders.pairs list.1) ∅,
      lists.foldl (fun counts list => counts.append orders.pairs list.2) ∅)

/-- The incoming pod as `PreFilter` prepares it: parsed, and with the namespaces that its
terms select. -/
def incomingPodInfo (pl : Plugin) (pod : Pod) : Except Status PodInfo :=
  let podInfo := newPodInfo pod
  if podInfo.parseError ≠ [] then
    .error ⟨.unschedulableAndUnresolvable, ["parsing pod: " ++ aggregate podInfo.parseError]⟩
  else if pl.enableNamespaceSelector then do
    let affinity ← (podInfo.requiredAffinityTerms.mapM
      pl.mergeAffinityTermNamespacesIfNotEmpty).mapError asStatus
    let antiAffinity ← (podInfo.requiredAntiAffinityTerms.mapM
      pl.mergeAffinityTermNamespacesIfNotEmpty).mapError asStatus
    return { podInfo with
      requiredAffinityTerms := affinity, requiredAntiAffinityTerms := antiAffinity }
  else .ok podInfo

/-- `PreFilter`, with the state it writes. The lists of the snapshot never fail. -/
def preFilter (pl : Plugin) (pod : Pod) (snapshot : Snapshot) (orders : Orders) :
    Except Status PreFilterState := do
  let podInfo ← pl.incomingPodInfo pod
  let namespaceLabels :=
    if pl.enableNamespaceSelector then getNamespaceLabelsSnapshot pod.podNamespace pl.nsLister
    else ∅
  let incoming := getIncomingAffinityAntiAffinityCounts orders podInfo snapshot.nodeInfoList
    pl.enableNamespaceSelector
  return {
    existingAntiAffinityCounts := getExistingAntiAffinityCounts orders pod namespaceLabels
      snapshot.havePodsWithRequiredAntiAffinityNodeInfoList pl.enableNamespaceSelector
    affinityCounts := incoming.1
    antiAffinityCounts := incoming.2
    podInfo
    namespaceLabels
    enableNamespaceSelector := pl.enableNamespaceSelector }

end Plugin

/-! ## Filter -/

variable (state : PreFilterState) (node : Node)

def satisfyExistingPodsAntiAffinity : Bool :=
  if !state.existingAntiAffinityCounts.keys.isEmpty then
    node.labels.entries.all fun label =>
      !decide (CountMap.count state.existingAntiAffinityCounts ⟨label.1, label.2⟩ > 0)
  else true

def satisfyPodAntiAffinity : Bool :=
  if !state.antiAffinityCounts.keys.isEmpty then
    state.podInfo.requiredAntiAffinityTerms.all fun term =>
      match node.labels.lookup term.topologyKey with
      | some topologyValue =>
        !decide (CountMap.count state.antiAffinityCounts ⟨term.topologyKey, topologyValue⟩ > 0)
      | none => true
  else true

/-- The loop of `satisfyPodAffinity`: nothing if the node lacks a label, otherwise whether
pods exist for every term. -/
def podsExist : Option Bool :=
  state.podInfo.requiredAffinityTerms.foldlM (fun exist term =>
    (node.labels.lookup term.topologyKey).map fun topologyValue =>
      if CountMap.count state.affinityCounts ⟨term.topologyKey, topologyValue⟩ ≤ 0 then false
      else exist) true

def satisfyPodAffinity : Bool :=
  match podsExist state node with
  | none => false
  | some false =>
    -- the first pod of a series that have affinity to themselves
    state.affinityCounts.keys.isEmpty &&
      podMatchesAllAffinityTerms state.podInfo.requiredAffinityTerms state.podInfo.pod
        state.enableNamespaceSelector
  | some true => true

def errReasonExistingAntiAffinityRulesNotMatch : String :=
  "node(s) didn't satisfy existing pods anti-affinity rules"

def errReasonAffinityNotMatch : String :=
  "node(s) didn't match pod affinity/anti-affinity rules"

def errReasonAffinityRulesNotMatch : String := "node(s) didn't match pod affinity rules"

def errReasonAntiAffinityRulesNotMatch : String := "node(s) didn't match pod anti-affinity rules"

/-- `Filter`: nothing if the pod may be placed on the node. -/
def filter (nodeInfo : NodeInfo) : Option Status :=
  match nodeInfo.node with
  | none => some ⟨.error, ["node not found"]⟩
  | some node =>
    if !satisfyPodAffinity state node then
      some ⟨.unschedulableAndUnresolvable,
        [errReasonAffinityNotMatch, errReasonAffinityRulesNotMatch]⟩
    else if !satisfyPodAntiAffinity state node then
      some ⟨.unschedulable, [errReasonAffinityNotMatch, errReasonAntiAffinityRulesNotMatch]⟩
    else if !satisfyExistingPodsAntiAffinity state node then
      some ⟨.unschedulable,
        [errReasonAffinityNotMatch, errReasonExistingAntiAffinityRulesNotMatch]⟩
    else none

/-! ## What a pod contributes -/

/-- The pairs of a node for some topology keys; a key that is not a label has none. -/
def pairsAt (keys : List String) : List TopologyPair :=
  keys.filterMap fun tk => (node.labels.lookup tk).map fun tv => ⟨tk, tv⟩

/-- The pairs of the terms that the pod matches. -/
def matchedPairs (pod : Pod) (nsLabels : Labels)
    (enableNamespaceSelector : Bool) (node : Node) : List TopologyPair :=
  pairsAt node ((terms.filter fun t => t.matches pod nsLabels enableNamespaceSelector).map
    (·.topologyKey))

/-- The pairs of all terms, if the pod matches every one of them. -/
def allMatchedPairs (pod : Pod) (enableNamespaceSelector : Bool)
    (node : Node) : List TopologyPair :=
  if podMatchesAllAffinityTerms terms pod enableNamespaceSelector then
    pairsAt node (terms.map (·.topologyKey))
  else []

namespace TopologyToMatchedTermCount

variable (m : TopologyToMatchedTermCount) (terms : List AffinityTerm) (pod : Pod)
  (nsLabels : Labels) (node : Node) (value : Int) (enable : Bool)

lemma foldl_update (keys : List String) :
    keys.foldl (fun m tk => update m node tk value) m =
      updateAll value m (pairsAt node keys) := by
  unfold updateAll pairsAt
  rw [foldl_filterMap]
  refine congrArg (fun f => List.foldl f m keys) (funext₂ fun m tk => ?_)
  unfold update
  cases node.labels.lookup tk with
  | none => rfl
  | some tv => rfl

lemma updateWithAntiAffinityTerms_eq :
    updateWithAntiAffinityTerms m terms pod nsLabels node value enable =
      updateAll value m (matchedPairs terms pod nsLabels enable node) := by
  unfold updateWithAntiAffinityTerms matchedPairs
  rw [← foldl_update, foldl_map, foldl_filter]

lemma updateWithAffinityTerms_eq :
    updateWithAffinityTerms m terms pod node value enable =
      updateAll value m (allMatchedPairs terms pod enable node) := by
  unfold updateWithAffinityTerms allMatchedPairs
  by_cases hall : podMatchesAllAffinityTerms terms pod enable = true
  · rw [if_pos hall, if_pos hall, ← foldl_update, foldl_map]
  · rw [if_neg hall, if_neg hall]
    rfl

end TopologyToMatchedTermCount

/-- What a pod on a node adds to a map. -/
abbrev Contribution := Pod → Node → List TopologyPair

/-- To the anti-affinity of existing pods: the pairs of its own terms. -/
def existingPairs (nsLabels : Labels) (enable : Bool) : Contribution :=
  fun p => matchedPairs (newPodInfo p).requiredAntiAffinityTerms pod nsLabels enable

def affinityPairs (enable : Bool) : Contribution :=
  fun p => allMatchedPairs podInfo.requiredAffinityTerms p enable

def antiAffinityPairs (enable : Bool) : Contribution :=
  fun p => matchedPairs podInfo.requiredAntiAffinityTerms p ∅ enable

/-- A pod that is not kept apart has no terms to contribute. -/
lemma existingPairs_eq_nil {pod p : Pod} (h : podWithRequiredAntiAffinity p = false)
    (nsLabels : Labels) (enable : Bool) (node : Node) :
    existingPairs pod nsLabels enable p node = [] := by
  have hterms : getPodAntiAffinityTerms p.affinity = [] := by
    unfold podWithRequiredAntiAffinity at h
    unfold getPodAntiAffinityTerms
    cases ha : p.affinity.bind (·.podAntiAffinity) with
    | none => rfl
    | some a =>
      rw [ha] at h
      simpa using h
  have hnil : (newPodInfo p).requiredAntiAffinityTerms = [] := by
    show termsOrNil (getAffinityTerms p (getPodAntiAffinityTerms p.affinity)) = []
    rw [hterms]
    rfl
  unfold existingPairs
  rw [hnil]
  rfl

/-! ## Counting a cluster -/

/-- A node of the cluster and its pods. -/
structure ClusterNode where
  node : Option Node
  pods : List Pod

abbrev Cluster := List ClusterNode

/-- How often the pods contribute a pair. -/
def podsCount (f : Contribution) (node : Option Node) (pods : List Pod) (pair : TopologyPair) :
    Int :=
  match node with
  | none => 0
  | some node => (pods.map fun p => ((f p node).count pair : Int)).sum

def clusterCount (f : Contribution) (cluster : Cluster) (pair : TopologyPair) : Int :=
  (cluster.map fun c => podsCount f c.node c.pods pair).sum

/-- The map holds the counts of the cluster, and no zeros. -/
structure Counted (f : Contribution) (m : TopologyToMatchedTermCount) (cluster : Cluster) :
    Prop where
  normal : CountMap.Normal m
  counts : ∀ pair, count m pair = clusterCount f cluster pair

/-! ### Changing one node -/

variable {α : Type}

lemma sum_map_set (g : α → Int) {l : List α} {i : Nat} {a : α} (h : l[i]? = some a) (b : α) :
    ((l.set i b).map g).sum = (l.map g).sum + (g b - g a) := by
  obtain ⟨hi, rfl⟩ := List.getElem?_eq_some_iff.1 h
  rw [map_set, sum_set', dif_pos (by rwa [length_map]), getElem_map]
  ring

variable {f : Contribution} {m : TopologyToMatchedTermCount} {cluster : Cluster} {i : Nat}
  {c : ClusterNode} {node : Node}

section

variable (h : Counted f m cluster) (hi : cluster[i]? = some c) (hnode : c.node = some node)

include h hi hnode

/-- An update by the pairs of a pod follows a change of its node's pods by that pod. -/
lemma Counted.update (p : Pod) (v : Int) {pods : List Pod}
    (hpods : ∀ pair, podsCount f (some node) pods pair =
      podsCount f (some node) c.pods pair + v * (f p node).count pair) :
    Counted f (updateAll v m (f p node)) (cluster.set i { c with pods }) where
  normal := h.normal.updateAll v _
  counts := by
    intro pair
    rw [count_updateAll, h.counts, clusterCount, clusterCount, sum_map_set _ hi]
    show _ = _ + (podsCount f c.node pods pair - podsCount f c.node c.pods pair)
    rw [hnode, hpods]
    ring

theorem Counted.add (p : Pod) :
    Counted f (updateAll 1 m (f p node))
      (cluster.set i { c with pods := c.pods ++ [p] }) := by
  refine h.update hi hnode p 1 fun pair => ?_
  simp [podsCount]

theorem Counted.remove {j : Nat} {p : Pod} (hp : c.pods[j]? = some p) :
    Counted f (updateAll (-1) m (f p node))
      (cluster.set i { c with pods := c.pods.eraseIdx j }) := by
  refine h.update hi hnode p (-1) fun pair => ?_
  obtain ⟨hj, hget⟩ := List.getElem?_eq_some_iff.1 hp
  have hperm := getElem_cons_eraseIdx_perm hj
  rw [hget] at hperm
  have hsum := (hperm.map fun p => ((f p node).count pair : Int)).sum_eq
  rw [map_cons, sum_cons] at hsum
  show _ = (c.pods.map fun p => ((f p node).count pair : Int)).sum + _
  rw [← hsum]
  show (List.map _ _).sum = _
  ring

end

/-! ### Counting from scratch -/

lemma sum_filterMap {β : Type} (g : α → Option β) (h : β → Int) (l : List α) :
    ((l.filterMap g).map h).sum = (l.map fun a => ((g a).map h).getD 0).sum := by
  induction l with
  | nil => rfl
  | cons a l ih =>
    rw [map_cons, sum_cons, ← ih]
    cases hg : g a with
    | none => rw [filterMap_cons_none hg]; simp
    | some b => rw [filterMap_cons_some hg]; simp

/-- Skipping what adds nothing. -/
lemma getD_map_ite {keep : Bool} {a : α} (h : α → Int) (hzero : keep = false → h a = 0) :
    ((if keep = true then some a else none : Option α).map h).getD 0 = h a := by
  cases keep with
  | false => exact (hzero rfl).symm
  | true => rfl

lemma sum_filter (P : α → Bool) (h : α → Int) {l : List α}
    (hzero : ∀ a ∈ l, P a = false → h a = 0) : ((l.filter P).map h).sum = (l.map h).sum := by
  rw [← filterMap_eq_filter, sum_filterMap]
  exact congrArg _ (map_congr_left fun a ha => getD_map_ite h (hzero a ha))

section

variable (f) (node) (pods : List Pod)

/-- The map of one node. -/
def nodeMap : TopologyToMatchedTermCount :=
  pods.foldl (fun m p => CountMap.updateAll 1 m (f p node)) ∅

lemma nodeMap_eq : nodeMap f node pods = updateAll 1 ∅ (pods.flatMap (f · node)) := by
  unfold nodeMap updateAll
  rw [foldl_flatMap]

lemma positive_nodeMap : CountMap.Positive (nodeMap f node pods) := by
  rw [nodeMap_eq]
  exact positive_empty.updateAll Int.one_pos _

lemma count_nodeMap (pair : TopologyPair) :
    count (nodeMap f node pods) pair = podsCount f (some node) pods pair := by
  rw [nodeMap_eq, count_updateAll, count_empty, zero_add, one_mul, count_flatMap]
  unfold podsCount
  induction pods with
  | nil => rfl
  | cons p pods ih =>
    simp only [map_cons, sum_cons, Nat.cast_add]
    rw [ih]
    rfl

/-- Maps that are merged in any order count a cluster, if each node is in one of them. -/
lemma counted_merge (iter : IterOrder TopologyPair) (nodes : List α)
    (g : α → Option TopologyToMatchedTermCount)
    {maps : List TopologyToMatchedTermCount} (hmaps : maps.Perm (nodes.filterMap g))
    (hpositive : ∀ a ∈ nodes, ∀ m ∈ g a, CountMap.Positive m)
    (hcount : ∀ pair, (nodes.map fun a => ((g a).map (count · pair)).getD 0).sum =
      clusterCount f cluster pair) :
    Counted f (maps.foldl (fun result topoMap => result.append iter topoMap) ∅) cluster where
  normal := by
    refine (positive_empty.foldl_merge (fun m hm => ?_) iter).normal
    obtain ⟨a, ha, hga⟩ := mem_filterMap.1 (hmaps.mem_iff.1 hm)
    exact hpositive a ha m hga
  counts := by
    intro pair
    refine (count_foldl_merge iter maps ∅ pair).trans ?_
    rw [count_empty, zero_add, (hmaps.map _).sum_eq, sum_filterMap]
    exact hcount pair

end

/-! ### Snapshots of a cluster -/

/-- The node of the cluster that a `NodeInfo` describes. -/
def NodeInfo.shown (n : NodeInfo) : ClusterNode := ⟨n.node, n.pods⟩

/-- The nodes and the pods of each node, in any order. -/
def Snapshot.Shows (snapshot : Snapshot) (cluster : Cluster) : Prop :=
  ∃ nodes, nodes.Perm (snapshot.nodeInfoList.map NodeInfo.shown) ∧
    List.Forall₂ (fun c d : ClusterNode => c.node = d.node ∧ c.pods.Perm d.pods) nodes cluster

/-- The snapshot of a cluster in its own order. -/
def Snapshot.of (cluster : Cluster) : Snapshot :=
  let nodeInfoList := cluster.map fun c =>
    (⟨c.node, c.pods, c.pods.filter podWithRequiredAntiAffinity, .rfl⟩ : NodeInfo)
  ⟨nodeInfoList, nodeInfoList.filter fun n => !n.podsWithRequiredAntiAffinity.isEmpty, .rfl⟩

lemma Snapshot.shows_of (cluster : Cluster) : (Snapshot.of cluster).Shows cluster := by
  refine ⟨cluster, ?_, forall₂_same.2 fun _ _ => ⟨rfl, .rfl⟩⟩
  unfold Snapshot.of
  rw [List.map_map]
  exact .of_eq (List.map_id cluster).symm

lemma podsCount_perm (f : Contribution) (node : Option Node) {pods pods' : List Pod}
    (h : pods.Perm pods') (pair : TopologyPair) :
    podsCount f node pods pair = podsCount f node pods' pair := by
  cases node with
  | none => rfl
  | some node => exact (h.map _).sum_eq

lemma clusterCount_congr (f : Contribution) {nodes : Cluster}
    (h : List.Forall₂ (fun c d : ClusterNode => c.node = d.node ∧ c.pods.Perm d.pods) nodes
      cluster) (pair : TopologyPair) : clusterCount f nodes pair = clusterCount f cluster pair := by
  unfold clusterCount
  induction h with
  | nil => rfl
  | cons hcd _ ih =>
    rw [map_cons, map_cons, sum_cons, sum_cons, ih, hcd.1, podsCount_perm f _ hcd.2]

lemma Snapshot.Shows.sum_podsCount {snapshot : Snapshot} (h : snapshot.Shows cluster)
    (f : Contribution) (pair : TopologyPair) :
    (snapshot.nodeInfoList.map fun n => podsCount f n.node n.pods pair).sum =
      clusterCount f cluster pair := by
  obtain ⟨nodes, hperm, hsame⟩ := h
  rw [← clusterCount_congr f hsame, clusterCount, (hperm.map _).sum_eq, List.map_map]
  rfl

/-! ### The three maps -/

section

variable {snapshot : Snapshot} (orders : Orders)

section

variable (pod : Pod) (nsLabels : Labels) (enable : Bool) (n : NodeInfo)

lemma existingOfNode_eq :
    Plugin.existingOfNode pod nsLabels enable n = n.node.bind fun node =>
      let m := nodeMap (existingPairs pod nsLabels enable) node n.podsWithRequiredAntiAffinity
      if !m.keys.isEmpty then some m else none := by
  unfold Plugin.existingOfNode nodeMap existingPairs
  simp only [TopologyToMatchedTermCount.updateWithAntiAffinityTerms_eq]
  cases n.node with
  | none => rfl
  | some node => rfl

/-- The pods that are not kept apart contribute nothing. -/
lemma podsCount_podsWithRequiredAntiAffinity (pair : TopologyPair) :
    podsCount (existingPairs pod nsLabels enable) n.node n.podsWithRequiredAntiAffinity pair =
      podsCount (existingPairs pod nsLabels enable) n.node n.pods pair := by
  rw [podsCount_perm _ _ n.subset]
  cases n.node with
  | none => rfl
  | some node =>
    refine sum_filter _ _ fun p _ hp => ?_
    rw [existingPairs_eq_nil hp]
    rfl

lemma count_existingOfNode (pair : TopologyPair) :
    ((Plugin.existingOfNode pod nsLabels enable n).map (count · pair)).getD 0 =
      podsCount (existingPairs pod nsLabels enable) n.node n.pods pair := by
  rw [← podsCount_podsWithRequiredAntiAffinity, existingOfNode_eq]
  cases n.node with
  | none => rfl
  | some node =>
    refine (getD_map_ite _ fun hempty => ?_).trans (count_nodeMap ..)
    exact count_eq_zero_of_isEmpty (by simpa using hempty) pair

lemma positive_existingOfNode
    (h : m ∈ Plugin.existingOfNode pod nsLabels enable n) : CountMap.Positive m := by
  rw [existingOfNode_eq, mem_def, bind_eq_some_iff] at h
  obtain ⟨node, -, hm⟩ := h
  obtain ⟨-, hm⟩ := ite_none_right_eq_some.1 hm
  cases hm
  exact positive_nodeMap _ _ _

lemma counted_existing (h : snapshot.Shows cluster) :
    Counted (existingPairs pod nsLabels enable)
      (Plugin.getExistingAntiAffinityCounts orders pod nsLabels
        snapshot.havePodsWithRequiredAntiAffinityNodeInfoList enable) cluster := by
  refine counted_merge _ _ _ _ (orders.existing.perm _)
    (fun n _ m hm => positive_existingOfNode pod nsLabels enable n hm) fun pair => ?_
  simp only [count_existingOfNode]
  rw [(snapshot.subset.map _).sum_eq, ← h.sum_podsCount]
  refine sum_filter _ _ fun n _ hn => ?_
  have hnil : n.podsWithRequiredAntiAffinity = [] := by simpa using hn
  rw [← podsCount_podsWithRequiredAntiAffinity, hnil]
  cases n.node with
  | none => rfl
  | some node => rfl

end

section

variable (podInfo : PodInfo) (enable : Bool) (n : NodeInfo)

lemma incomingOfNode_eq :
    Plugin.incomingOfNode podInfo enable n = n.node.bind fun node =>
      let affinity := nodeMap (affinityPairs podInfo enable) node n.pods
      let antiAffinity := nodeMap (antiAffinityPairs podInfo enable) node n.pods
      if !affinity.keys.isEmpty || !antiAffinity.keys.isEmpty then some (affinity, antiAffinity)
      else none := by
  unfold Plugin.incomingOfNode nodeMap affinityPairs antiAffinityPairs
  simp only [TopologyToMatchedTermCount.updateWithAntiAffinityTerms_eq,
    TopologyToMatchedTermCount.updateWithAffinityTerms_eq]
  cases n.node with
  | none => rfl
  | some node => rfl

lemma count_incomingOfNode (pair : TopologyPair) :
    (((Plugin.incomingOfNode podInfo enable n).map (·.1)).map (count · pair)).getD 0 =
        podsCount (affinityPairs podInfo enable) n.node n.pods pair ∧
      (((Plugin.incomingOfNode podInfo enable n).map (·.2)).map (count · pair)).getD 0 =
        podsCount (antiAffinityPairs podInfo enable) n.node n.pods pair := by
  rw [incomingOfNode_eq, Option.map_map, Option.map_map]
  cases n.node with
  | none => exact ⟨rfl, rfl⟩
  | some node =>
    -- a node is skipped only if both of its maps are empty
    constructor
    · refine (getD_map_ite (fun m => count (Prod.fst m) pair) fun hempty => ?_).trans
        (count_nodeMap ..)
      simp only [Bool.or_eq_false_iff, Bool.not_eq_false'] at hempty
      exact count_eq_zero_of_isEmpty hempty.1 pair
    · refine (getD_map_ite (fun m => count (Prod.snd m) pair) fun hempty => ?_).trans
        (count_nodeMap ..)
      simp only [Bool.or_eq_false_iff, Bool.not_eq_false'] at hempty
      exact count_eq_zero_of_isEmpty hempty.2 pair

lemma positive_incomingOfNode {m : TopologyToMatchedTermCount × TopologyToMatchedTermCount}
    (h : Plugin.incomingOfNode podInfo enable n = some m) :
    CountMap.Positive m.1 ∧ CountMap.Positive m.2 := by
  rw [incomingOfNode_eq, bind_eq_some_iff] at h
  obtain ⟨node, -, hm⟩ := h
  obtain ⟨-, hm⟩ := ite_none_right_eq_some.1 hm
  cases hm
  exact ⟨positive_nodeMap _ _ _, positive_nodeMap _ _ _⟩

lemma counted_empty (hnil : ∀ p node, f p node = []) :
    Counted f ∅ cluster where
  normal := normal_empty
  counts := by
    intro pair
    have hpods : ∀ (node : Option Node) (pods : List Pod), podsCount f node pods pair = 0 := by
      intro node pods
      cases node with
      | none => rfl
      | some node => simp [podsCount, hnil]
    simp [clusterCount, hpods]

lemma counted_incoming_merge (h : snapshot.Shows cluster)
    (proj : TopologyToMatchedTermCount × TopologyToMatchedTermCount → TopologyToMatchedTermCount)
    (hpositive : ∀ n m, Plugin.incomingOfNode podInfo enable n = some m →
      CountMap.Positive (proj m))
    (hcount : ∀ n pair, (((Plugin.incomingOfNode podInfo enable n).map proj).map
      (count · pair)).getD 0 = podsCount f n.node n.pods pair) :
    Counted f ((orders.incoming.order (snapshot.nodeInfoList.filterMap
        (Plugin.incomingOfNode podInfo enable))).foldl
      (fun counts list => counts.append orders.pairs (proj list)) ∅) cluster := by
  rw [← foldl_map]
  refine counted_merge f orders.pairs snapshot.nodeInfoList
    (fun n => (Plugin.incomingOfNode podInfo enable n).map proj) ?_ ?_ fun pair => ?_
  · rw [← map_filterMap]
    exact (orders.incoming.perm _).map proj
  · intro n _ m hm
    obtain ⟨pair, hpair, rfl⟩ := map_eq_some_iff.1 hm
    exact hpositive n pair hpair
  · simp only [hcount]
    exact h.sum_podsCount f pair

lemma counted_incoming (h : snapshot.Shows cluster) :
    Counted (affinityPairs podInfo enable)
        (Plugin.getIncomingAffinityAntiAffinityCounts orders podInfo snapshot.nodeInfoList
          enable).1 cluster ∧
      Counted (antiAffinityPairs podInfo enable)
        (Plugin.getIncomingAffinityAntiAffinityCounts orders podInfo snapshot.nodeInfoList
          enable).2 cluster := by
  unfold Plugin.getIncomingAffinityAntiAffinityCounts
  by_cases hnone : (podInfo.requiredAffinityTerms.isEmpty &&
      podInfo.requiredAntiAffinityTerms.isEmpty) = true
  · rw [if_pos hnone]
    simp only [Bool.and_eq_true, List.isEmpty_iff] at hnone
    constructor
    · refine counted_empty fun p node => ?_
      unfold affinityPairs
      rw [hnone.1]
      rfl
    · refine counted_empty fun p node => ?_
      unfold antiAffinityPairs
      rw [hnone.2]
      rfl
  · rw [if_neg hnone]
    constructor
    · exact counted_incoming_merge orders podInfo enable h Prod.fst
        (fun n m hm => (positive_incomingOfNode podInfo enable n hm).1)
        fun n pair => (count_incomingOfNode podInfo enable n pair).1
    · exact counted_incoming_merge orders podInfo enable h Prod.snd
        (fun n m hm => (positive_incomingOfNode podInfo enable n hm).2)
        fun n pair => (count_incomingOfNode podInfo enable n pair).2

end

end

/-! ## The state counts the cluster -/

/-- The three maps hold the counts of the cluster. -/
structure PreFilterState.Counts (s : PreFilterState) (cluster : Cluster) : Prop where
  existing : Counted (existingPairs s.podInfo.pod s.namespaceLabels s.enableNamespaceSelector)
    s.existingAntiAffinityCounts cluster
  affinity : Counted (affinityPairs s.podInfo s.enableNamespaceSelector) s.affinityCounts cluster
  antiAffinity : Counted (antiAffinityPairs s.podInfo s.enableNamespaceSelector)
    s.antiAffinityCounts cluster

/-- The same incoming pod. -/
structure PreFilterState.SameIncoming (s s' : PreFilterState) : Prop where
  podInfo : s.podInfo = s'.podInfo
  namespaceLabels : s.namespaceLabels = s'.namespaceLabels
  enableNamespaceSelector : s.enableNamespaceSelector = s'.enableNamespaceSelector

lemma pod_incomingPodInfo {pl : Plugin} {pod : Pod} {podInfo : PodInfo}
    (h : pl.incomingPodInfo pod = .ok podInfo) : podInfo.pod = pod := by
  unfold Plugin.incomingPodInfo at h
  by_cases herr : (newPodInfo pod).parseError ≠ []
  · rw [if_pos herr] at h
    cases h
  rw [if_neg herr] at h
  split_ifs at h with henable
  · obtain ⟨affinity, -, h⟩ := bind_eq_ok.1 h
    obtain ⟨antiAffinity, -, h⟩ := bind_eq_ok.1 h
    cases h
    rfl
  · cases h
    rfl

variable {pl : Plugin} {pod : Pod} {snapshot : Snapshot} {orders : Orders} {s : PreFilterState}

/-- `PreFilter` counts the pods of the cluster. -/
theorem counted_preFilter (h : snapshot.Shows cluster)
    (hs : pl.preFilter pod snapshot orders = .ok s) : s.Counts cluster := by
  obtain ⟨podInfo, hpodInfo, hs⟩ := bind_eq_ok.1 hs
  obtain rfl := pod_incomingPodInfo hpodInfo
  cases hs
  constructor
  · exact counted_existing orders _ _ _ h
  · exact (counted_incoming orders podInfo _ h).1
  · exact (counted_incoming orders podInfo _ h).2

/-- Whether it succeeds does not depend on the snapshot. -/
lemma preFilter_again (hs : pl.preFilter pod snapshot orders = .ok s) (snapshot' : Snapshot)
    (orders' : Orders) :
    ∃ s', pl.preFilter pod snapshot' orders' = .ok s' ∧ s.SameIncoming s' := by
  obtain ⟨podInfo, hpodInfo, hs⟩ := bind_eq_ok.1 hs
  cases hs
  unfold Plugin.preFilter
  rw [hpodInfo]
  exact ⟨_, rfl, rfl, rfl, rfl⟩

/-! ## Dry runs -/

/-- The state during the dry runs of preemption, and the cluster as it would be. -/
structure DryRun where
  state : PreFilterState
  cluster : Cluster

/-- Extension calls for a node by its index, and copies of the cycle state. A pod is removed by
its index among the pods of the node. -/
inductive ExtensionCall where
  | addPod (node : Nat) (pod : Pod)
  | removePod (node pod : Nat)
  | clone (iter : IterOrder TopologyPair)

/-- `AddPod` and `RemovePod` for a node that is known. -/
def DryRun.step (r : DryRun) : ExtensionCall → Option DryRun
  | .addPod i p => do
    let c ← r.cluster[i]?
    let node ← c.node
    return ⟨r.state.updateWithPod (newPodInfo p) node 1,
      r.cluster.set i { c with pods := c.pods ++ [p] }⟩
  | .removePod i j => do
    let c ← r.cluster[i]?
    let node ← c.node
    let p ← c.pods[j]?
    return ⟨r.state.updateWithPod (newPodInfo p) node (-1),
      r.cluster.set i { c with pods := c.pods.eraseIdx j }⟩
  | .clone iter => some ⟨r.state.clone iter, r.cluster⟩

def dryRuns (s : PreFilterState) (cluster : Cluster) : Machine DryRun ExtensionCall where
  init := ⟨s, cluster⟩
  step := DryRun.step

lemma updateWithPod_eq (s : PreFilterState) (p : Pod) (node : Node) (v : Int) :
    s.updateWithPod (newPodInfo p) node v =
      { s with
        existingAntiAffinityCounts := updateAll v s.existingAntiAffinityCounts
          (existingPairs s.podInfo.pod s.namespaceLabels s.enableNamespaceSelector p node)
        affinityCounts := updateAll v s.affinityCounts
          (affinityPairs s.podInfo s.enableNamespaceSelector p node)
        antiAffinityCounts := updateAll v s.antiAffinityCounts
          (antiAffinityPairs s.podInfo s.enableNamespaceSelector p node) } := by
  unfold PreFilterState.updateWithPod
  simp only [TopologyToMatchedTermCount.updateWithAntiAffinityTerms_eq,
    TopologyToMatchedTermCount.updateWithAffinityTerms_eq]
  rfl

lemma clusterCount_nonneg (f : Contribution) (cluster : Cluster) (pair : TopologyPair) :
    0 ≤ clusterCount f cluster pair := by
  refine sum_nonneg fun x hx => ?_
  obtain ⟨c, -, rfl⟩ := List.mem_map.1 hx
  cases c.node with
  | none => exact le_rfl
  | some node =>
    refine sum_nonneg fun y hy => ?_
    obtain ⟨p, -, rfl⟩ := List.mem_map.1 hy
    exact Int.natCast_nonneg _

lemma Counted.positive
    (h : Counted f m cluster) : CountMap.Positive m := by
  intro pair v hv
  obtain ⟨hcount, hne⟩ := h.normal.lookup_eq_iff.1 hv
  have hnonneg := clusterCount_nonneg f cluster pair
  rw [h.counts] at hcount
  omega

lemma Counted.clone
    (h : Counted f m cluster) (iter : IterOrder TopologyPair) :
    Counted f (m.clone iter) cluster where
  normal := (positive_empty.merge h.positive iter).normal
  counts := by
    intro pair
    refine (count_merge iter ∅ m pair).trans ?_
    rw [count_empty, zero_add, h.counts]

/-- The maps count the cluster as it would be. -/
structure DryRun.Inv (s : PreFilterState) (r : DryRun) : Prop where
  incoming : r.state.SameIncoming s
  counts : r.state.Counts r.cluster

lemma DryRun.Inv.step {r r' : DryRun} {call : ExtensionCall} (h : r.Inv s)
    (hstep : r.step call = some r') : r'.Inv s := by
  obtain ⟨hinc, hexist, haff, hanti⟩ := h
  cases call with
  | addPod i p =>
    obtain ⟨c, hc, hstep⟩ := bind_eq_some_iff.1 hstep
    obtain ⟨node, hnode, hstep⟩ := bind_eq_some_iff.1 hstep
    cases hstep
    rw [updateWithPod_eq]
    refine ⟨{ hinc with }, ?_⟩
    exact ⟨hexist.add hc hnode p, haff.add hc hnode p, hanti.add hc hnode p⟩
  | removePod i j =>
    obtain ⟨c, hc, hstep⟩ := bind_eq_some_iff.1 hstep
    obtain ⟨node, hnode, hstep⟩ := bind_eq_some_iff.1 hstep
    obtain ⟨p, hp, hstep⟩ := bind_eq_some_iff.1 hstep
    cases hstep
    rw [updateWithPod_eq]
    refine ⟨{ hinc with }, ?_⟩
    exact ⟨hexist.remove hc hnode hp, haff.remove hc hnode hp,
      hanti.remove hc hnode hp⟩
  | clone iter =>
    cases hstep
    refine ⟨{ hinc with }, ?_⟩
    exact ⟨hexist.clone iter, haff.clone iter, hanti.clone iter⟩

lemma DryRun.Inv.reach {tr : List ExtensionCall} {r : DryRun} (hs : s.Counts cluster)
    (h : (dryRuns s cluster).Reach tr r) : r.Inv s := by
  refine h.invariant (DryRun.Inv s) ?_ fun _ _ _ hinv hstep => hinv.step hstep
  exact ⟨⟨rfl, rfl, rfl⟩, hs⟩

/-! ## The same maps, the same verdict -/

/-- The same entries in the three maps. -/
structure PreFilterState.SameMaps (s s' : PreFilterState) : Prop where
  existing : ∀ pair, s.existingAntiAffinityCounts.lookup pair =
    s'.existingAntiAffinityCounts.lookup pair
  affinity : ∀ pair, s.affinityCounts.lookup pair = s'.affinityCounts.lookup pair
  antiAffinity : ∀ pair, s.antiAffinityCounts.lookup pair = s'.antiAffinityCounts.lookup pair

/-- No map has an entry that is zero. -/
structure PreFilterState.NoZeros (s : PreFilterState) : Prop where
  existing : CountMap.Normal s.existingAntiAffinityCounts
  affinity : CountMap.Normal s.affinityCounts
  antiAffinity : CountMap.Normal s.antiAffinityCounts

lemma PreFilterState.Counts.noZeros (h : s.Counts cluster) : s.NoZeros :=
  ⟨h.existing.normal, h.affinity.normal, h.antiAffinity.normal⟩

variable {m' : TopologyToMatchedTermCount}

lemma Counted.lookup_eq
    (h : Counted f m cluster) (h' : Counted f m' cluster) (pair : TopologyPair) :
    m.lookup pair = m'.lookup pair :=
  CountMap.lookup_eq h.normal h'.normal (fun pair => (h.counts pair).trans (h'.counts pair).symm)
    pair

variable {s' : PreFilterState}

lemma PreFilterState.Counts.sameMaps (h : s.Counts cluster) (h' : s'.Counts cluster)
    (hinc : s.SameIncoming s') : s.SameMaps s' := by
  obtain ⟨hpodInfo, hlabels, henable⟩ := hinc
  obtain ⟨hexist, haff, hanti⟩ := h
  rw [hpodInfo, hlabels, henable] at hexist
  rw [hpodInfo, henable] at haff hanti
  exact ⟨hexist.lookup_eq h'.existing, haff.lookup_eq h'.affinity,
    hanti.lookup_eq h'.antiAffinity⟩

lemma count_congr
    (h : ∀ pair, m.lookup pair = m'.lookup pair) (pair : TopologyPair) :
    count m pair = count m' pair := by
  unfold count
  rw [h]

/-- `Filter` sees the maps through their entries only. -/
lemma filter_congr (hmaps : s.SameMaps s') (hinc : s.SameIncoming s')
    (nodeInfo : NodeInfo) : filter s nodeInfo = filter s' nodeInfo := by
  have hexist : ∀ node,
      satisfyExistingPodsAntiAffinity s node = satisfyExistingPodsAntiAffinity s' node := by
    intro node
    unfold satisfyExistingPodsAntiAffinity
    simp only [count_congr hmaps.existing, isEmpty_congr hmaps.existing]
  have hanti : ∀ node, satisfyPodAntiAffinity s node = satisfyPodAntiAffinity s' node := by
    intro node
    unfold satisfyPodAntiAffinity
    simp only [count_congr hmaps.antiAffinity, isEmpty_congr hmaps.antiAffinity, hinc.podInfo]
  have haff : ∀ node, satisfyPodAffinity s node = satisfyPodAffinity s' node := by
    intro node
    unfold satisfyPodAffinity podsExist
    simp only [count_congr hmaps.affinity, isEmpty_congr hmaps.affinity,
      hinc.podInfo, hinc.enableNamespaceSelector]
  unfold filter
  simp only [hexist, hanti, haff]

/-- After any sequence of calls, the maps are those that `PreFilter` computes from a snapshot of
the cluster with these pods added and removed: entry by entry, without zeros, and with the same
verdict of `Filter` on every node. -/
theorem affinity_incremental (pl : Plugin) (pod : Pod) (snapshot : Snapshot) (orders : Orders)
    {cluster : Cluster} (hshows : snapshot.Shows cluster) {s : PreFilterState}
    (hs : pl.preFilter pod snapshot orders = .ok s) {tr : List ExtensionCall} {r : DryRun}
    (h : (dryRuns s cluster).Reach tr r) (snapshot' : Snapshot)
    (hshows' : snapshot'.Shows r.cluster) (orders' : Orders) :
    ∃ s', pl.preFilter pod snapshot' orders' = .ok s' ∧
      r.state.SameMaps s' ∧ r.state.NoZeros ∧ s'.NoZeros ∧
      ∀ nodeInfo, filter r.state nodeInfo = filter s' nodeInfo := by
  have hinv := DryRun.Inv.reach (counted_preFilter hshows hs) h
  obtain ⟨s', hs', hsame⟩ := preFilter_again hs snapshot' orders'
  have hcounts := counted_preFilter hshows' hs'
  have hinc : r.state.SameIncoming s' :=
    ⟨hinv.incoming.podInfo.trans hsame.podInfo,
      hinv.incoming.namespaceLabels.trans hsame.namespaceLabels,
      hinv.incoming.enableNamespaceSelector.trans hsame.enableNamespaceSelector⟩
  have hmaps := hinv.counts.sameMaps hcounts hinc
  exact ⟨s', hs', hmaps, hinv.counts.noZeros, hcounts.noZeros, filter_congr hmaps hinc⟩

/-! ### A pod with affinity to itself -/

/-- A pod that wants to be in a zone with others of its application. -/
def groupPod : Pod where
  podNamespace := "default"
  labels := (∅ : Labels).insert "app" "web"
  affinity := some ⟨some ⟨[⟨some (.ok ⟨false, fun l => l.lookup "app" == some "web"⟩), [], "zone",
    none⟩], []⟩, none⟩

def zoneNode (zone : String) : Node := { name := zone, labels := (∅ : Labels).insert "zone" zone }

/-- One pod of the application, in the first of two zones. -/
def twoZones : Cluster :=
  [⟨some (zoneNode "a"), [groupPod]⟩, ⟨some (zoneNode "b"), []⟩]

def noNamespaces : Plugin := ⟨⟨fun _ => .ok [], fun _ => .ok ∅⟩, false⟩

def inOrder : Orders :=
  ⟨⟨id, fun _ => .rfl⟩, ⟨id, fun _ => .rfl⟩, ⟨id, fun _ => .rfl⟩⟩

/-- The state that `PreFilter` computes for another pod of the application. -/
def groupState : PreFilterState where
  existingAntiAffinityCounts := ∅
  affinityCounts := (∅ : TopologyToMatchedTermCount).insert ⟨"zone", "a"⟩ 1
  antiAffinityCounts := ∅
  podInfo := newPodInfo groupPod
  namespaceLabels := ∅
  enableNamespaceSelector := false

/-- When the only pod of the application is removed, another one may be placed in any zone. -/
theorem affinity_incremental_first :
    let emptyNode : NodeInfo := ⟨some (zoneNode "b"), [], [], .rfl⟩
    filter groupState emptyNode = some ⟨.unschedulableAndUnresolvable,
        [errReasonAffinityNotMatch, errReasonAffinityRulesNotMatch]⟩ ∧
      ∃ r, (dryRuns groupState twoZones).Reach [.removePod 0 0] r ∧
        filter r.state emptyNode = none ∧
        ∃ s', noNamespaces.preFilter groupPod (Snapshot.of r.cluster) inOrder = .ok s' ∧
          r.state.SameMaps s' ∧ r.state.NoZeros ∧ s'.NoZeros ∧
          ∀ nodeInfo, filter r.state nodeInfo = filter s' nodeInfo := by
  intro emptyNode
  obtain ⟨r, hr, hverdict⟩ := Machine.exists_reach (dryRuns groupState twoZones)
    (fun r => filter r.state emptyNode) [.removePod 0 0] none (by decide +kernel)
  refine ⟨by decide +kernel, r, hr, hverdict, ?_⟩
  exact affinity_incremental noNamespaces groupPod (Snapshot.of twoZones) inOrder
    (Snapshot.shows_of twoZones) rfl hr (Snapshot.of r.cluster) (Snapshot.shows_of r.cluster)
    inOrder

end Kubernetes.Scheduler.InterPodAffinity
