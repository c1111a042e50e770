import Kubernetes.Scheduler.NodeInfo

/-! # Counting pods per topology

The filter of the `podtopologyspread` plugin compares numbers of matching pods between the
domains of a topology. `calPreFilterState` counts them for all domains; `updateWithPod`
adjusts the numbers when preemption or a nominated pod changes the pods of one node.

Nodes that the pod cannot be placed on (by its node selector and affinity), or that lack
one of the topology keys, are not eligible. The first loop of `calPreFilterState` decides on
the domains by the eligible nodes; the second one counts the pods of every node that is in
one of these domains.

The second loop runs in parallel. Its atomic additions may come in any order, and ranges
over maps visit their keys in any order: both orders are arguments here. The numbers, `int32` in
the source, are taken not to overflow.

Results:

1. `lookup_countPairs`: what the two loops compute, in every order;
2. `spread_counts_iff`: that is the number of pods on eligible nodes exactly if no pod on
   another node is counted;
3. `spread_incremental`: incremental updates agree with counting anew, as long as no
   terminating pod is counted by them.
-/

namespace Kubernetes.Scheduler.PodTopologySpread

open GoMap List Option

/-! ## Pods, nodes and constraints -/

abbrev Labels := GoMap String String

/-- `labels.Selector` is an interface; only `Matches` is used. -/
abbrev Selector := Labels → Bool

/-- The fields of a pod on a node that are read. -/
structure Pod where
  podNamespace : String
  labels : Labels
  deletionTimestamp : Option Nat
deriving DecidableEq

structure NodeInfo where
  node : Option Node
  pods : List Pod

inductive UnsatisfiableConstraintAction where
  | doNotSchedule
  | scheduleAnyway
deriving DecidableEq

/-- `v1.TopologySpreadConstraint`. The label selector is what `LabelSelectorAsSelector`
makes of it: nothing if that is an error. -/
structure TopologySpreadConstraint where
  maxSkew : Int
  topologyKey : String
  whenUnsatisfiable : UnsatisfiableConstraintAction
  labelSelector : Option Selector

/-- `topologySpreadConstraint`. -/
structure Constraint where
  maxSkew : Int
  topologyKey : String
  selector : Selector

/-- `filterTopologySpreadConstraints`: nothing if a selector cannot be parsed. -/
def filterTopologySpreadConstraints (constraints : List TopologySpreadConstraint)
    (action : UnsatisfiableConstraintAction) : Option (List Constraint) :=
  constraints.foldlM (fun result c =>
    if c.whenUnsatisfiable = action then
      c.labelSelector.map fun selector => result ++ [⟨c.maxSkew, c.topologyKey, selector⟩]
    else some result) []

/-! ### Node affinity -/

/-- `nodeSelectorTerm`. A selector of fields sees the name of the node. -/
structure NodeSelectorTerm where
  matchLabels : Option Selector
  matchFields : Option (String → Bool)
  parseErrs : Bool

/-- `nodeSelectorTerm.match`, without its errors. -/
def NodeSelectorTerm.matches (t : NodeSelectorTerm) (node : Node) : Bool :=
  if t.parseErrs then false
  else if t.matchLabels.any fun selector => !selector node.labels then false
  else if t.matchFields.any fun selector => node.name ≠ "" && !selector node.name then false
  else true

/-- `RequiredNodeAffinity`: the node selector, and the terms of the required node
affinity. -/
structure RequiredNodeAffinity where
  labelSelector : Option Selector
  nodeSelector : Option (List NodeSelectorTerm)

/-- `RequiredNodeAffinity.Match`, whose error is ignored. -/
def RequiredNodeAffinity.matches (s : RequiredNodeAffinity) (node : Node) : Bool :=
  if s.labelSelector.any fun selector => !selector node.labels then false
  else
    match s.nodeSelector with
    | some terms => terms.any fun t => t.matches node
    | none => true

/-- The fields of the pod to schedule that are read. -/
structure IncomingPod where
  podNamespace : String
  topologySpreadConstraints : List TopologySpreadConstraint
  requiredNodeAffinity : RequiredNodeAffinity

/-- The plugin: its default constraints, and the `DefaultSelector` of a pod, which is
nothing if the selector is empty. -/
structure Plugin where
  defaultConstraints : List TopologySpreadConstraint
  defaultSelector : IncomingPod → Option Selector

def Plugin.buildDefaultConstraints (pl : Plugin) (pod : IncomingPod)
    (action : UnsatisfiableConstraintAction) : Option (List Constraint) :=
  (filterTopologySpreadConstraints pl.defaultConstraints action).map fun constraints =>
    match pl.defaultSelector pod with
    | none => []
    | some selector => constraints.map fun c => { c with selector }

/-! ## The state -/

/-- `topologyPair`: a key and a value. -/
abbrev TopologyPair := String × String

structure CriticalPath where
  topologyValue : String
  matchNum : Int
deriving DecidableEq

/-- `criticalPaths`: two paths, the first one with the smaller number. -/
structure CriticalPaths where
  first : CriticalPath
  second : CriticalPath
deriving DecidableEq

namespace CriticalPaths

def new : CriticalPaths := ⟨⟨"", 2 ^ 31 - 1⟩, ⟨"", 2 ^ 31 - 1⟩⟩

/-- Swap the paths if they are out of order. -/
def sorted (p : CriticalPaths) : CriticalPaths :=
  if p.first.matchNum > p.second.matchNum then ⟨p.second, p.first⟩ else p

def update (p : CriticalPaths) (tpVal : String) (num : Int) : CriticalPaths :=
  if tpVal = p.first.topologyValue then sorted { p with first := ⟨tpVal, num⟩ }
  else if tpVal = p.second.topologyValue then sorted { p with second := ⟨tpVal, num⟩ }
  else if num < p.first.matchNum then ⟨⟨tpVal, num⟩, p.first⟩
  else if num < p.second.matchNum then { p with second := ⟨tpVal, num⟩ }
  else p

end CriticalPaths

structure PreFilterState where
  constraints : List Constraint
  tpKeyToCriticalPaths : GoMap String CriticalPaths
  tpPairToMatchNum : GoMap TopologyPair Int

def PreFilterState.empty : PreFilterState := ⟨[], ∅, ∅⟩

/-! ## Counting from scratch -/

/-- `labels[key]`, empty when missing. -/
def labelValue (labels : Labels) (key : String) : String := (labels.lookup key).getD ""

/-- The domain of a node for a constraint. -/
def Constraint.pair (c : Constraint) (labels : Labels) : TopologyPair :=
  (c.topologyKey, labelValue labels c.topologyKey)

def nodeLabelsMatchSpreadConstraints (nodeLabels : Labels) (constraints : List Constraint) : Bool :=
  constraints.all fun c => (nodeLabels.lookup c.topologyKey).isSome

/-- The pod is counted for a selector. -/
def counted (selector : Selector) (ns : String) (p : Pod) : Bool :=
  -- Bypass terminating Pod (see #87621).
  if p.deletionTimestamp ≠ none ∨ p.podNamespace ≠ ns then false else selector p.labels

def countPodsMatchSelector (pods : List Pod) (selector : Selector) (ns : String) : Int :=
  pods.foldl (fun count p => if counted selector ns p then count + 1 else count) 0

/-- The node passes the tests of the first loop. -/
def eligible (pod : IncomingPod) (constraints : List Constraint) (node : Node) : Bool :=
  pod.requiredNodeAffinity.matches node && nodeLabelsMatchSpreadConstraints node.labels constraints

/-- The body of the first loop. -/
def registerNode (pod : IncomingPod) (constraints : List Constraint)
    (m : GoMap TopologyPair Int) (n : NodeInfo) : GoMap TopologyPair Int :=
  match n.node with
  | none => m -- node not found
  | some node =>
    if eligible pod constraints node then
      constraints.foldl (fun m c => m.insert (c.pair node.labels) 0) m
    else m

/-- One addition of the second loop. -/
def processNode (ns : String) (m : GoMap TopologyPair Int) (t : Node × List Pod × Constraint) :
    GoMap TopologyPair Int :=
  match m.lookup (t.2.2.pair t.1.labels) with
  | none => m
  | some tpCount =>
    m.insert (t.2.2.pair t.1.labels)
      (tpCount + countPodsMatchSelector t.2.1 t.2.2.selector ns)

inductive CalError where
  /-- "obtaining pod's hard topology spread constraints" -/
  | hardConstraints
  /-- "setting default hard topology spread constraints" -/
  | defaultConstraints
  /-- The second loop panics at a `NodeInfo` without a node. -/
  | nilNode
deriving DecidableEq

/-- The orders that are not fixed by the code. -/
structure Orders where
  additions : IterOrder (Node × List Pod × Constraint)
  pairs : IterOrder TopologyPair

/-- The hard constraints of a pod. -/
def Plugin.hardConstraints (pl : Plugin) (pod : IncomingPod) : Except CalError (List Constraint) :=
  if pod.topologySpreadConstraints.length > 0 then
    match filterTopologySpreadConstraints pod.topologySpreadConstraints .doNotSchedule with
    | some constraints => .ok constraints
    | none => .error .hardConstraints
  else
    match pl.buildDefaultConstraints pod .doNotSchedule with
    | some constraints => .ok constraints
    | none => .error .defaultConstraints

def withNodes (allNodes : List NodeInfo) : List (Node × List Pod) :=
  allNodes.filterMap fun n => n.node.map (·, n.pods)

/-- The additions of the second loop. -/
def additions (allNodes : List NodeInfo) (constraints : List Constraint) :
    List (Node × List Pod × Constraint) :=
  (withNodes allNodes).flatMap fun n => constraints.map fun c => (n.1, n.2, c)

/-- `TpPairToMatchNum` after both loops. -/
def countPairs (pod : IncomingPod) (constraints : List Constraint) (allNodes : List NodeInfo)
    (orders : Orders) : GoMap TopologyPair Int :=
  (orders.additions.order (additions allNodes constraints)).foldl (processNode pod.podNamespace)
    (allNodes.foldl (registerNode pod constraints) ∅)

/-- The critical paths of the numbers. -/
def criticalPaths (constraints : List Constraint) (m : GoMap TopologyPair Int) (orders : Orders) :
    GoMap String CriticalPaths :=
  (orders.pairs.order m.keys).foldl
    (fun paths pair =>
      paths.insert pair.1
        (((paths.lookup pair.1).getD .new).update pair.2 ((m.lookup pair).getD 0)))
    (constraints.foldl (fun paths c => paths.insert c.topologyKey .new) ∅)

def Plugin.calPreFilterState (pl : Plugin) (pod : IncomingPod) (allNodes : List NodeInfo)
    (orders : Orders) : Except CalError PreFilterState := do
  let constraints ← pl.hardConstraints pod
  if constraints.length = 0 then return .empty
  if allNodes.any fun n => n.node.isNone then throw .nilNode
  let m := countPairs pod constraints allNodes orders
  return ⟨constraints, criticalPaths constraints m orders, m⟩

/-! ## Incremental updates -/

/-- The body of the loop of `updateWithPod`. A number or a path that does not exist is a nil
pointer. -/
def PreFilterState.updateConstraint (node : Node) (podLabels : Labels) (delta : Int)
    (s : PreFilterState) (c : Constraint) : Option PreFilterState :=
  if c.selector podLabels then do
    let num ← s.tpPairToMatchNum.lookup (c.pair node.labels)
    let paths ← s.tpKeyToCriticalPaths.lookup c.topologyKey
    some { s with
      tpPairToMatchNum := s.tpPairToMatchNum.insert (c.pair node.labels) (num + delta)
      tpKeyToCriticalPaths := s.tpKeyToCriticalPaths.insert c.topologyKey
        (paths.update (labelValue node.labels c.topologyKey) (num + delta)) }
  else some s

def PreFilterState.updateWithPod (s : PreFilterState) (updatedPod : Pod)
    (preemptorPod : IncomingPod) (node : Option Node) (delta : Int) : Option PreFilterState :=
  if updatedPod.podNamespace ≠ preemptorPod.podNamespace then some s
  else
    match node with
    | none => some s
    | some node =>
      if nodeLabelsMatchSpreadConstraints node.labels s.constraints = false then some s
      else s.constraints.foldlM (updateConstraint node updatedPod.labels delta) s

/-! ## What the loops compute -/

variable {pl : Plugin} {orders : Orders}

section

variable {pod : IncomingPod} {constraints : List Constraint} {allNodes : List NodeInfo}

lemma countPodsMatchSelector_eq (pods : List Pod) (selector : Selector) (ns : String) :
    countPodsMatchSelector pods selector ns = pods.countP (counted selector ns) := by
  have hfold : ∀ (l : List Pod) (count : Int),
      l.foldl (fun count p => if counted selector ns p then count + 1 else count) count =
        count + l.countP (counted selector ns) := by
    intro l
    induction l with
    | nil => simp
    | cons p l ih =>
      intro count
      rw [foldl_cons, ih, countP_cons]
      split
      · push_cast
        ring
      · simp
  unfold countPodsMatchSelector
  rw [hfold, zero_add]

/-- The eligible nodes and their pods. -/
def eligibleNodes (pod : IncomingPod) (constraints : List Constraint) (allNodes : List NodeInfo) :
    List (Node × List Pod) :=
  (withNodes allNodes).filter fun n => eligible pod constraints n.1

/-- The domains of the eligible nodes. -/
def domains (pod : IncomingPod) (constraints : List Constraint) (allNodes : List NodeInfo) :
    List TopologyPair :=
  (eligibleNodes pod constraints allNodes).flatMap fun n =>
    constraints.map fun c => c.pair n.1.labels

variable (ns : String)

/-- The number of pods in a domain: on the nodes in it, for every constraint with its key. -/
def spreadCount (constraints : List Constraint) (nodes : List (Node × List Pod))
    (pair : TopologyPair) : Nat :=
  (nodes.map fun n =>
    (constraints.map fun c =>
      if c.pair n.1.labels = pair then n.2.countP (counted c.selector ns) else 0).sum).sum

variable (m : GoMap TopologyPair Int)

lemma foldl_registerNode :
    allNodes.foldl (registerNode pod constraints) m =
      (domains pod constraints allNodes).foldl (fun m pair => m.insert pair 0) m := by
  induction allNodes generalizing m with
  | nil => rfl
  | cons n allNodes ih =>
    rw [foldl_cons, ih]
    unfold registerNode domains eligibleNodes withNodes
    cases hn : n.node with
    | none => simp [hn]
    | some node =>
      cases helig : eligible pod constraints node with
      | true => simp [hn, helig, foldl_append, foldl_map]
      | false => simp [hn, helig]

lemma lookup_foldl_insert {K V : Type} [DecidableEq K] (l : List K) (v : V) (m : GoMap K V)
    (k : K) :
    (l.foldl (fun m k => m.insert k v) m).lookup k = if k ∈ l then some v else m.lookup k := by
  induction l generalizing m with
  | nil => simp
  | cons k' l ih =>
    rw [foldl_cons, ih, lookup_insert_if]
    by_cases hk : k = k'
    · simp [hk]
    · simp [hk]

/-- What one addition adds to a domain. -/
def added (pair : TopologyPair) (t : Node × List Pod × Constraint) : Int :=
  if t.2.2.pair t.1.labels = pair then countPodsMatchSelector t.2.1 t.2.2.selector ns else 0

lemma lookup_processNode (t : Node × List Pod × Constraint) (pair : TopologyPair) :
    (processNode ns m t).lookup pair = (m.lookup pair).map (· + added ns pair t) := by
  unfold processNode added
  split_ifs with hpair
  · rw [hpair]
    cases hm : m.lookup pair with
    | none => simp [hm]
    | some tpCount => simp
  · cases m.lookup (t.2.2.pair t.1.labels) with
    | none => simp
    | some tpCount => simp [Ne.symm hpair]

/-- The second loop adds what all its additions add. -/
lemma lookup_foldl_processNode (l : List (Node × List Pod × Constraint))
    (m : GoMap TopologyPair Int) (pair : TopologyPair) :
    (l.foldl (processNode ns) m).lookup pair =
      (m.lookup pair).map (· + (l.map (added ns pair)).sum) := by
  induction l generalizing m with
  | nil => simp
  | cons t l ih =>
    rw [foldl_cons, ih, lookup_processNode, Option.map_map]
    congr 1
    funext v
    simp only [Function.comp_apply, map_cons, sum_cons]
    ring

lemma sum_added (pair : TopologyPair) :
    ((additions allNodes constraints).map (added ns pair)).sum =
      spreadCount ns constraints (withNodes allNodes) pair := by
  have hnode : ∀ n : Node × List Pod,
      ((constraints.map fun c => (n.1, n.2, c)).map (added ns pair)).sum =
        ((constraints.map fun c =>
          if c.pair n.1.labels = pair then n.2.countP (counted c.selector ns) else 0).sum : Nat) := by
    intro n
    rw [List.map_map]
    induction constraints with
    | nil => rfl
    | cons c constraints ih =>
      simp only [map_cons, sum_cons, ih, Function.comp_apply, added, countPodsMatchSelector_eq]
      split <;> simp
  unfold additions spreadCount
  induction withNodes allNodes with
  | nil => rfl
  | cons n nodes ih =>
    simp only [flatMap_cons, map_append, sum_append, ih, map_cons, sum_cons, hnode]
    rfl

lemma lookup_countPairs (orders : Orders) (pair : TopologyPair) :
    (countPairs pod constraints allNodes orders).lookup pair =
      if pair ∈ domains pod constraints allNodes then
        some (spreadCount pod.podNamespace constraints (withNodes allNodes) pair : Int)
      else none := by
  unfold countPairs
  have hperm := orders.additions.perm (additions allNodes constraints)
  rw [lookup_foldl_processNode, (hperm.map _).sum_eq, sum_added, foldl_registerNode,
    lookup_foldl_insert]
  split
  · simp
  · rfl

lemma calPreFilterState_eq (hc : pl.hardConstraints pod = .ok constraints)
    (hne : constraints ≠ []) (orders : Orders) :
    pl.calPreFilterState pod allNodes orders =
      if allNodes.any fun n => n.node.isNone then .error .nilNode
      else .ok ⟨constraints,
        criticalPaths constraints (countPairs pod constraints allNodes orders) orders,
        countPairs pod constraints allNodes orders⟩ := by
  have hlength : ¬constraints.length = 0 := fun h => hne (length_eq_zero_iff.1 h)
  unfold Plugin.calPreFilterState
  rw [hc]
  show (if constraints.length = 0 then _ else _) = _
  rw [if_neg hlength]
  split <;> rfl

/-- The constraints of the state, and the nodes without which there is no state. -/
lemma hardConstraints_of_ok {s : PreFilterState}
    (hs : pl.calPreFilterState pod allNodes orders = .ok s) :
    pl.hardConstraints pod = .ok s.constraints ∧
      (s.constraints = [] ∧ s = .empty ∨
        s.constraints ≠ [] ∧ (allNodes.any fun n => n.node.isNone) = false ∧
          s = ⟨s.constraints,
            criticalPaths s.constraints (countPairs pod s.constraints allNodes orders) orders,
            countPairs pod s.constraints allNodes orders⟩) := by
  cases hc : pl.hardConstraints pod with
  | error err =>
    unfold Plugin.calPreFilterState at hs
    rw [hc] at hs
    cases hs
  | ok constraints =>
    by_cases hne : constraints = []
    · subst hne
      unfold Plugin.calPreFilterState at hs
      rw [hc] at hs
      cases hs
      exact ⟨rfl, .inl ⟨rfl, rfl⟩⟩
    · rw [calPreFilterState_eq hc hne] at hs
      split_ifs at hs with hnodes
      cases hs
      exact ⟨rfl, .inr ⟨hne, Bool.eq_false_of_not_eq_true hnodes, rfl⟩⟩

/-! ## Nodes that are not eligible -/

variable {ns} {pair : TopologyPair}

lemma spreadCount_perm {nodes nodes' : List (Node × List Pod)} (h : nodes.Perm nodes') :
    spreadCount ns constraints nodes pair = spreadCount ns constraints nodes' pair :=
  (h.map _).sum_eq

lemma spreadCount_append (nodes nodes' : List (Node × List Pod)) :
    spreadCount ns constraints (nodes ++ nodes') pair =
      spreadCount ns constraints nodes pair + spreadCount ns constraints nodes' pair := by
  unfold spreadCount
  rw [map_append, sum_append]

lemma spreadCount_eq_zero {nodes : List (Node × List Pod)} :
    spreadCount ns constraints nodes pair = 0 ↔
      ∀ n ∈ nodes, ∀ c ∈ constraints, c.pair n.1.labels = pair →
        ∀ p ∈ n.2, counted c.selector ns p = false := by
  unfold spreadCount
  simp only [sum_eq_zero_iff, List.mem_map, forall_exists_index, and_imp,
    forall_apply_eq_imp_iff₂, ite_eq_right_iff, countP_eq_zero, Bool.not_eq_true]

lemma spreadCount_withNodes (pod : IncomingPod) :
    spreadCount ns constraints (withNodes allNodes) pair =
      spreadCount ns constraints (eligibleNodes pod constraints allNodes) pair +
        spreadCount ns constraints
          ((withNodes allNodes).filter fun n => !eligible pod constraints n.1) pair := by
  rw [← spreadCount_append]
  exact spreadCount_perm (filter_append_perm _ _).symm

lemma mem_withNodes {node : Node} {pods : List Pod} :
    (node, pods) ∈ withNodes allNodes ↔ ∃ n ∈ allNodes, n.node = some node ∧ n.pods = pods := by
  unfold withNodes
  rw [mem_filterMap]
  constructor
  · rintro ⟨n, hn, hmap⟩
    obtain ⟨node', hnode, hpair⟩ := map_eq_some_iff.1 hmap
    cases hpair
    exact ⟨n, hn, hnode, rfl⟩
  · rintro ⟨n, hn, hnode, rfl⟩
    exact ⟨n, hn, by rw [hnode]; rfl⟩

variable {allNodes' : List NodeInfo}

lemma withNodes_perm (h : allNodes'.Perm allNodes) :
    (withNodes allNodes').Perm (withNodes allNodes) := h.filterMap _

lemma mem_domains_perm (h : allNodes'.Perm allNodes) :
    pair ∈ domains pod constraints allNodes' ↔ pair ∈ domains pod constraints allNodes :=
  (((withNodes_perm h).filter _).flatMap_right _).mem_iff

/-- The numbers of the eligible nodes: no number for a pair that is not a domain of
theirs. -/
def expected (pod : IncomingPod) (constraints : List Constraint) (allNodes : List NodeInfo)
    (pair : TopologyPair) : Option Int :=
  if pair ∈ domains pod constraints allNodes then
    some (spreadCount pod.podNamespace constraints (eligibleNodes pod constraints allNodes) pair)
  else none

/-- No pod on a node that is not eligible is counted: every `NodeInfo` has its node, and the
other nodes of a domain have no pods that match. -/
structure OthersEmpty (pod : IncomingPod) (constraints : List Constraint)
    (allNodes : List NodeInfo) : Prop where
  hasNode : ∀ n ∈ allNodes, n.node ≠ none
  uncounted : ∀ n ∈ allNodes, ∀ node ∈ n.node, eligible pod constraints node = false →
    ∀ c ∈ constraints, c.pair node.labels ∈ domains pod constraints allNodes →
      ∀ p ∈ n.pods, counted c.selector pod.podNamespace p = false

instance (pod : IncomingPod) (constraints : List Constraint) (allNodes : List NodeInfo) :
    Decidable (OthersEmpty pod constraints allNodes) :=
  decidable_of_iff
    ((∀ n ∈ allNodes, n.node ≠ none) ∧
      ∀ n ∈ allNodes, ∀ node ∈ n.node, eligible pod constraints node = false →
        ∀ c ∈ constraints, c.pair node.labels ∈ domains pod constraints allNodes →
          ∀ p ∈ n.pods, counted c.selector pod.podNamespace p = false)
    ⟨fun h => ⟨h.1, h.2⟩, fun h => ⟨h.hasNode, h.uncounted⟩⟩

/-- The nodes and the additions in any order, and the ranges over maps in any order: the
numbers are those of the eligible nodes exactly if the other nodes have nothing to count. -/
theorem spread_counts_iff (pl : Plugin) (pod : IncomingPod) (allNodes : List NodeInfo)
    {constraints : List Constraint} (hc : pl.hardConstraints pod = .ok constraints)
    (hne : constraints ≠ []) :
    (∀ allNodes' orders, allNodes'.Perm allNodes →
      ∃ s, pl.calPreFilterState pod allNodes' orders = .ok s ∧
        ∀ pair, s.tpPairToMatchNum.lookup pair = expected pod constraints allNodes pair) ↔
      OthersEmpty pod constraints allNodes := by
  constructor
  · intro h
    obtain ⟨s, hs, hexact⟩ := h allNodes ⟨⟨id, fun _ => .rfl⟩, ⟨id, fun _ => .rfl⟩⟩ .rfl
    rw [calPreFilterState_eq hc hne] at hs
    split_ifs at hs with hnodes
    cases hs
    refine ⟨fun n hn hnone => hnodes ?_, fun n hn node hnode helig c hcmem hpair => ?_⟩
    · exact List.any_eq_true.2 ⟨n, hn, by rw [hnone]; rfl⟩
    -- the numbers are equal, so the others contribute nothing
    have hvalue := hexact (c.pair node.labels)
    simp only [lookup_countPairs, expected, if_pos hpair, Option.some.injEq] at hvalue
    rw [spreadCount_withNodes pod] at hvalue
    have hzero : spreadCount pod.podNamespace constraints
        ((withNodes allNodes).filter fun n => !eligible pod constraints n.1)
        (c.pair node.labels) = 0 := by
      omega
    refine spreadCount_eq_zero.1 hzero (node, n.pods) ?_ c hcmem rfl
    exact mem_filter.2 ⟨mem_withNodes.2 ⟨n, hn, hnode, rfl⟩, by simp [helig]⟩
  · rintro ⟨hasNode, huncounted⟩ allNodes' orders hperm
    have hany : ¬(allNodes'.any fun n => n.node.isNone) = true := by
      intro hany
      obtain ⟨n, hn, hnone⟩ := List.any_eq_true.1 hany
      exact hasNode n (hperm.subset hn) (Option.isNone_iff_eq_none.1 hnone)
    refine ⟨_, by rw [calPreFilterState_eq hc hne, if_neg hany], fun pair => ?_⟩
    simp only [lookup_countPairs, expected, mem_domains_perm hperm]
    split_ifs with hpair
    · have hzero : spreadCount pod.podNamespace constraints
          ((withNodes allNodes).filter fun n => !eligible pod constraints n.1) pair = 0 := by
        refine spreadCount_eq_zero.2 fun n hn c hcmem hpair' => ?_
        obtain ⟨hmem, helig⟩ := mem_filter.1 hn
        obtain ⟨info, hinfo, hnode, hpods⟩ := mem_withNodes.1 hmem
        rw [← hpods]
        subst hpair'
        exact huncounted info hinfo n.1 hnode (by simpa using helig) c hcmem hpair
      rw [spreadCount_perm (withNodes_perm hperm), spreadCount_withNodes pod, hzero, add_zero]
    · rfl

/-! ### A cluster with two kinds of disks -/

/-- A node with a zone and a disk type. -/
def zoneNode (name zone disk : String) : Node :=
  { name, labels := ((∅ : Labels).insert "zone" zone).insert "disk" disk }

/-- A pod of the application. -/
def webPod (deletionTimestamp : Option Nat) : Pod :=
  ⟨"default", (∅ : Labels).insert "app" "web", deletionTimestamp⟩

/-- Spread the application over the zones. -/
def zoneConstraint : Constraint := ⟨1, "zone", fun l => l.lookup "app" == some "web"⟩

/-- A pod that spreads over the zones and needs an SSD. -/
def ssdPod : IncomingPod where
  podNamespace := "default"
  topologySpreadConstraints := [⟨1, "zone", .doNotSchedule, some zoneConstraint.selector⟩]
  requiredNodeAffinity := ⟨some fun l => l.lookup "disk" == some "ssd", none⟩

def noDefaults : Plugin := ⟨[], fun _ => none⟩

def inOrder : Orders := ⟨⟨id, fun _ => .rfl⟩, ⟨id, fun _ => .rfl⟩⟩

/-- An application pod on the node that has no SSD; the zones of the two nodes. -/
def twoNodes (ssdZone hddZone : String) : List NodeInfo :=
  [⟨some (zoneNode "ssd" ssdZone "ssd"), []⟩,
    ⟨some (zoneNode "hdd" hddZone "hdd"), [webPod none]⟩]

/-- The other node is in another zone. -/
theorem spread_counts_apart :
    OthersEmpty ssdPod [zoneConstraint] (twoNodes "a" "b") ∧
      ∀ allNodes' orders, allNodes'.Perm (twoNodes "a" "b") →
        ∃ s, noDefaults.calPreFilterState ssdPod allNodes' orders = .ok s ∧
          ∀ pair, s.tpPairToMatchNum.lookup pair =
            expected ssdPod [zoneConstraint] (twoNodes "a" "b") pair := by
  have hothers : OthersEmpty ssdPod [zoneConstraint] (twoNodes "a" "b") := by decide +kernel
  exact ⟨hothers, (spread_counts_iff noDefaults ssdPod (twoNodes "a" "b") rfl
    (cons_ne_nil _ _)).2 hothers⟩

/-- In one zone, the pod on the node that the pod cannot be placed on is counted. -/
theorem spread_counts_together :
    noDefaults.hardConstraints ssdPod = .ok [zoneConstraint] ∧
      (countPairs ssdPod [zoneConstraint] (twoNodes "a" "a") inOrder).lookup ("zone", "a") =
        some 1 ∧
      expected ssdPod [zoneConstraint] (twoNodes "a" "a") ("zone", "a") = some 0 ∧
      ¬∃ s, noDefaults.calPreFilterState ssdPod (twoNodes "a" "a") inOrder = .ok s ∧
        ∀ pair, s.tpPairToMatchNum.lookup pair =
          expected ssdPod [zoneConstraint] (twoNodes "a" "a") pair := by
  have hcount : (countPairs ssdPod [zoneConstraint] (twoNodes "a" "a") inOrder).lookup
      ("zone", "a") = some 1 := by decide +kernel
  have hexpected : expected ssdPod [zoneConstraint] (twoNodes "a" "a") ("zone", "a") = some 0 := by
    decide +kernel
  refine ⟨rfl, hcount, hexpected, ?_⟩
  rintro ⟨s, hs, hexact⟩
  obtain ⟨hc, hstate⟩ := hardConstraints_of_ok hs
  have hcs : [zoneConstraint] = s.constraints := Except.ok.inj hc
  rcases hstate with ⟨hnil, -⟩ | ⟨-, -, hstate⟩
  · exact cons_ne_nil _ _ (hcs.trans hnil)
  · have hpair := hexact ("zone", "a")
    rw [hstate, ← hcs, hexpected] at hpair
    cases hcount.symm.trans hpair

/-! ## Incremental updates -/

variable {node : Node} (podLabels : Labels) (delta : Int) {s : PreFilterState}

/-- There is a number and a path to update. -/
def PreFilterState.HasDomain (s : PreFilterState) (node : Node) (c : Constraint) : Prop :=
  (s.tpPairToMatchNum.lookup (c.pair node.labels)).isSome = true ∧
    (s.tpKeyToCriticalPaths.lookup c.topologyKey).isSome = true

/-- What an update of a constraint adds to a domain. -/
def changed (node : Node) (podLabels : Labels) (delta : Int) (pair : TopologyPair)
    (c : Constraint) : Int :=
  if c.selector podLabels = true ∧ c.pair node.labels = pair then delta else 0

open PreFilterState

lemma updateConstraint_spec {c : Constraint}
    (hc : c.selector podLabels = true → s.HasDomain node c) :
    ∃ s', s.updateConstraint node podLabels delta c = some s' ∧ s'.constraints = s.constraints ∧
      (∀ pair, s'.tpPairToMatchNum.lookup pair =
        (s.tpPairToMatchNum.lookup pair).map (· + changed node podLabels delta pair c)) ∧
      ∀ c', s'.HasDomain node c' ↔ s.HasDomain node c' := by
  unfold updateConstraint
  split_ifs with hsel
  · obtain ⟨⟨num, hnum⟩, paths, hpaths⟩ :=
      (hc hsel).imp isSome_iff_exists.1 isSome_iff_exists.1
    rw [hnum, hpaths]
    refine ⟨_, rfl, rfl, fun pair => ?_, fun c' => ?_⟩
    · rw [lookup_insert_if]
      by_cases hpair : pair = c.pair node.labels
      · rw [if_pos hpair, hpair, hnum]
        simp [changed, hsel]
      · rw [if_neg hpair]
        simp [changed, Ne.symm hpair]
    · unfold PreFilterState.HasDomain
      rw [lookup_insert_if, lookup_insert_if]
      refine and_congr ?_ ?_
      · split_ifs with hpair
        · rw [hpair, hnum]
          simp
        · rfl
      · split_ifs with hkey
        · rw [hkey, hpaths]
          simp
        · rfl
  · refine ⟨s, rfl, rfl, fun pair => ?_, fun _ => .rfl⟩
    simp [changed, hsel]

lemma foldlM_updateConstraint (l : List Constraint)
    (hl : ∀ c ∈ l, c.selector podLabels = true → s.HasDomain node c) :
    ∃ s', l.foldlM (updateConstraint node podLabels delta) s = some s' ∧
      s'.constraints = s.constraints ∧
      (∀ pair, s'.tpPairToMatchNum.lookup pair = (s.tpPairToMatchNum.lookup pair).map
        (· + (l.map (changed node podLabels delta pair)).sum)) ∧
      ∀ c', s'.HasDomain node c' ↔ s.HasDomain node c' := by
  induction l generalizing s with
  | nil => exact ⟨s, rfl, rfl, fun pair => by simp, fun _ => .rfl⟩
  | cons c l ih =>
    obtain ⟨s1, hs1, hcs, hlookup, hdomain⟩ :=
      updateConstraint_spec podLabels delta (hl c mem_cons_self)
    obtain ⟨s2, hs2, hconstraints2, hlookup2, hdomain2⟩ :=
      ih (s := s1) fun c' hc' hsel => (hdomain c').2 (hl c' (mem_cons_of_mem c hc') hsel)
    refine ⟨s2, ?_, hconstraints2.trans hcs, fun pair => ?_,
      fun c' => (hdomain2 c').trans (hdomain c')⟩
    · rw [foldlM_cons, hs1]
      exact hs2
    · rw [hlookup2, hlookup, Option.map_map]
      congr 1
      funext v
      simp only [Function.comp_apply, map_cons, sum_cons]
      ring

/-- The loop fails at the first constraint that counts the pod and has no domain here. -/
lemma foldlM_updateConstraint_none (l : List Constraint)
    (hl : ¬∀ c ∈ l, c.selector podLabels = true → s.HasDomain node c) :
    l.foldlM (updateConstraint node podLabels delta) s = none := by
  induction l generalizing s with
  | nil => exact absurd (by simp) hl
  | cons c l ih =>
    rw [foldlM_cons]
    by_cases hc : c.selector podLabels = true → s.HasDomain node c
    · obtain ⟨s1, hs1, -, -, hdomain⟩ := updateConstraint_spec podLabels delta hc
      rw [hs1]
      refine ih fun hall => hl (forall_mem_cons.2 ⟨hc, fun c' hc' hsel => ?_⟩)
      exact (hdomain c').1 (hall c' hc' hsel)
    obtain ⟨hsel, hmissing⟩ := Classical.not_imp.1 hc
    simp only [updateConstraint, hsel, if_true]
    unfold PreFilterState.HasDomain at hmissing
    cases hnum : s.tpPairToMatchNum.lookup (c.pair node.labels) with
    | none => rfl
    | some num =>
      cases hpaths : s.tpKeyToCriticalPaths.lookup c.topologyKey with
      | none => rfl
      | some paths => simp [hnum, hpaths] at hmissing

/-- The numbers and paths that `updateWithPod` needs for a pod are there. -/
def PreFilterState.Ready (s : PreFilterState) (pod : IncomingPod) (node : Node) (p : Pod) : Prop :=
  p.podNamespace = pod.podNamespace →
    nodeLabelsMatchSpreadConstraints node.labels s.constraints = true →
      ∀ c ∈ s.constraints, c.selector p.labels = true → s.HasDomain node c

/-- `updateWithPod` panics exactly if something is missing, and never removes anything. -/
lemma updateWithPod_cases (s : PreFilterState) (pod : IncomingPod) (node : Node) (p : Pod)
    (delta : Int) :
    (s.Ready pod node p ∧ ∃ s', s.updateWithPod p pod (some node) delta = some s' ∧
      s'.constraints = s.constraints ∧ ∀ c, s'.HasDomain node c ↔ s.HasDomain node c) ∨
    (¬s.Ready pod node p ∧ s.updateWithPod p pod (some node) delta = none) := by
  unfold updateWithPod PreFilterState.Ready
  by_cases hns : p.podNamespace = pod.podNamespace
  · cases hlabels : nodeLabelsMatchSpreadConstraints node.labels s.constraints with
    | false => simp [hns, hlabels]
    | true =>
      simp only [hns, hlabels, ne_eq, not_true_eq_false, if_false, Bool.true_eq_false,
        forall_const]
      by_cases hall : ∀ c ∈ s.constraints, c.selector p.labels = true → s.HasDomain node c
      · obtain ⟨s', hs', hcs, -, hdomain⟩ :=
          foldlM_updateConstraint p.labels delta s.constraints hall
        exact .inl ⟨hall, s', hs', hcs, hdomain⟩
      · exact .inr ⟨hall, foldlM_updateConstraint_none p.labels delta s.constraints hall⟩
  · simp [hns]

variable {before after : List NodeInfo} {pods : List Pod} {p : Pod}

/-- The cluster in which the node has these pods. -/
def cluster (before after : List NodeInfo) (node : Node) (pods : List Pod) : List NodeInfo :=
  before ++ ⟨some node, pods⟩ :: after

lemma withNodes_cluster :
    withNodes (cluster before after node pods) =
      withNodes before ++ (node, pods) :: withNodes after := by
  simp [withNodes, cluster]

lemma domains_cluster (pods pods' : List Pod) :
    domains pod constraints (cluster before after node pods) =
      domains pod constraints (cluster before after node pods') := by
  unfold domains eligibleNodes
  rw [withNodes_cluster, withNodes_cluster]
  simp only [filter_append, filter_cons, flatMap_append]
  split <;> simp

lemma mem_domains_of_eligible (h : eligible pod constraints node = true) {c : Constraint}
    (hc : c ∈ constraints) :
    c.pair node.labels ∈ domains pod constraints (cluster before after node pods) := by
  unfold domains eligibleNodes
  rw [withNodes_cluster]
  refine mem_flatMap.2 ⟨(node, pods), ?_, List.mem_map.2 ⟨c, hc, rfl⟩⟩
  exact mem_filter.2 ⟨mem_append_right _ mem_cons_self, h⟩

/-- What one pod of the node counts for in a domain. -/
def podCount (ns : String) (constraints : List Constraint) (node : Node) (pair : TopologyPair)
    (p : Pod) : Nat :=
  (constraints.map fun c =>
    if c.pair node.labels = pair ∧ counted c.selector ns p = true then 1 else 0).sum

lemma spreadCount_node_cons :
    spreadCount ns constraints [(node, p :: pods)] pair =
      podCount ns constraints node pair p + spreadCount ns constraints [(node, pods)] pair := by
  unfold spreadCount podCount
  simp only [map_cons, map_nil, sum_cons, sum_nil, add_zero]
  induction constraints with
  | nil => rfl
  | cons c constraints ih =>
    simp only [map_cons, sum_cons, ih]
    by_cases hpair : c.pair node.labels = pair
    · simp only [hpair, if_true, true_and, countP_cons]
      omega
    · simp only [hpair, if_false, false_and]
      omega

lemma spreadCount_cons :
    spreadCount ns constraints (withNodes (cluster before after node (p :: pods))) pair =
      spreadCount ns constraints (withNodes (cluster before after node pods)) pair +
        podCount ns constraints node pair p := by
  rw [withNodes_cluster, withNodes_cluster, spreadCount_append, spreadCount_append,
    ← singleton_append, ← singleton_append (l := withNodes after), spreadCount_append,
    spreadCount_append, spreadCount_node_cons]
  omega

lemma spreadCount_pods_perm {pods' : List Pod} (h : pods.Perm pods') :
    spreadCount ns constraints (withNodes (cluster before after node pods)) pair =
      spreadCount ns constraints (withNodes (cluster before after node pods')) pair := by
  have hnode : spreadCount ns constraints [(node, pods)] pair =
      spreadCount ns constraints [(node, pods')] pair := by
    unfold spreadCount
    simp only [map_cons, map_nil, h.countP_eq]
  rw [withNodes_cluster, withNodes_cluster, spreadCount_append, spreadCount_append,
    ← singleton_append, ← singleton_append (l := withNodes after), spreadCount_append,
    spreadCount_append, hnode]

end

/-! ### Sequences of updates -/

/-- The state that the extension calls have made, and the pods that the node has by then. -/
structure DryRun where
  state : PreFilterState
  pods : List Pod

inductive ExtensionCall where
  | addPod (p : Pod)
  | removePod (p : Pod)

def ExtensionCall.pod : ExtensionCall → Pod
  | .addPod p => p
  | .removePod p => p

/-- Extension calls for the pods of one node. Only a pod of the node is removed. -/
def dryRuns (pod : IncomingPod) (node : Node) (s : PreFilterState) (pods : List Pod) :
    Machine DryRun ExtensionCall where
  init := ⟨s, pods⟩
  step r call :=
    match call with
    | .addPod p =>
      (r.state.updateWithPod p pod (some node) 1).map fun state => ⟨state, r.pods ++ [p]⟩
    | .removePod p =>
      if p ∈ r.pods then
        (r.state.updateWithPod p pod (some node) (-1)).map fun state => ⟨state, r.pods.erase p⟩
      else none

/-- A terminating pod is of another namespace or matches none of the selectors. -/
def Uncounted (pod : IncomingPod) (constraints : List Constraint) (p : Pod) : Prop :=
  p.deletionTimestamp ≠ none →
    p.podNamespace ≠ pod.podNamespace ∨ ∀ c ∈ constraints, c.selector p.labels = false

instance (pod : IncomingPod) (constraints : List Constraint) (p : Pod) :
    Decidable (Uncounted pod constraints p) :=
  inferInstanceAs (Decidable (p.deletionTimestamp ≠ none →
    p.podNamespace ≠ pod.podNamespace ∨ ∀ c ∈ constraints, c.selector p.labels = false))

section

variable {constraints : List Constraint} {pod : IncomingPod} {before after : List NodeInfo}
  {node : Node} {pods : List Pod} {p : Pod} {s s' : PreFilterState} {delta : Int}

/-- The state is that of the cluster in which the node has these pods. -/
structure Counts (pod : IncomingPod) (before after : List NodeInfo) (node : Node)
    (pods : List Pod) (s : PreFilterState) : Prop where
  lookup : ∀ pair, s.tpPairToMatchNum.lookup pair =
    if pair ∈ domains pod s.constraints (cluster before after node pods) then
      some (spreadCount pod.podNamespace s.constraints
        (withNodes (cluster before after node pods)) pair : Int)
    else none
  paths : ∀ c ∈ s.constraints, (s.tpKeyToCriticalPaths.lookup c.topologyKey).isSome = true

variable {c : Constraint}

section

variable (h : Counts pod before after node pods s)
  (helig : eligible pod s.constraints node = true)

include h helig

lemma Counts.hasDomain (hc : c ∈ s.constraints) : s.HasDomain node c := by
  refine ⟨?_, h.paths c hc⟩
  rw [h.lookup, if_pos (mem_domains_of_eligible helig hc)]
  rfl

/-- Every number and every path that an update needs is there. -/
lemma Counts.isSome_updateWithPod (p : Pod) (delta : Int) :
    (s.updateWithPod p pod (some node) delta).isSome = true := by
  rcases updateWithPod_cases s pod node p delta with ⟨-, s', hs', -⟩ | ⟨hmissing, -⟩
  · rw [hs']
    rfl
  · exact absurd (fun _ _ c hc _ => h.hasDomain helig hc) hmissing

omit h helig in
lemma podCount_eq_zero {ns : String} {pair : TopologyPair}
    (h : ∀ c ∈ constraints, counted c.selector ns p = false) :
    podCount ns constraints node pair p = 0 := by
  unfold podCount
  refine sum_eq_zero fun v hv => ?_
  obtain ⟨c, hc, rfl⟩ := List.mem_map.1 hv
  rw [h c hc]
  simp

omit h helig in
lemma counted_eq (hns : p.podNamespace = pod.podNamespace) (hp : Uncounted pod constraints p)
    (hc : c ∈ constraints) :
    counted c.selector pod.podNamespace p = c.selector p.labels := by
  unfold counted
  by_cases hterm : p.deletionTimestamp = none
  · rw [if_neg (by simp [hterm, hns])]
  rw [if_pos (.inl hterm)]
  rcases hp hterm with hne | hnone
  · exact absurd hns hne
  · exact (hnone c hc).symm

omit h helig in
lemma sum_changed {ns : String} (pair : TopologyPair)
    (h : ∀ c ∈ constraints, counted c.selector ns p = c.selector p.labels) :
    (constraints.map (changed node p.labels delta pair)).sum =
      delta * podCount ns constraints node pair p := by
  unfold podCount
  induction constraints with
  | nil => simp
  | cons c constraints ih =>
    rw [map_cons, sum_cons, ih fun c' hc' => h c' (mem_cons_of_mem c hc'),
      map_cons, sum_cons, changed, h c mem_cons_self]
    push_cast
    by_cases hboth : c.selector p.labels = true ∧ c.pair node.labels = pair
    · rw [if_pos hboth, if_pos hboth.symm]
      ring
    · rw [if_neg hboth, if_neg fun h => hboth h.symm]
      ring

theorem Counts.updateWithPod (hp : Uncounted pod s.constraints p) (delta : Int) :
    ∃ s', s.updateWithPod p pod (some node) delta = some s' ∧ s'.constraints = s.constraints ∧
      (∀ pair, s'.tpPairToMatchNum.lookup pair = (s.tpPairToMatchNum.lookup pair).map
        (· + delta * podCount pod.podNamespace s.constraints node pair p)) ∧
      ∀ c ∈ s.constraints, (s'.tpKeyToCriticalPaths.lookup c.topologyKey).isSome = true := by
  unfold PreFilterState.updateWithPod
  by_cases hns : p.podNamespace = pod.podNamespace
  · have hlabels : nodeLabelsMatchSpreadConstraints node.labels s.constraints = true :=
      (Bool.and_eq_true_iff.1 helig).2
    obtain ⟨s', hs', hcs, hlookup, hdomain⟩ :=
      foldlM_updateConstraint p.labels delta s.constraints fun c hc _ => h.hasDomain helig hc
    refine ⟨s', ?_, hcs, fun pair => ?_,
      fun c hc => ((hdomain c).2 (h.hasDomain helig hc)).2⟩
    · rw [if_neg (not_not.2 hns)]
      dsimp only
      rw [hlabels, if_neg (by decide)]
      exact hs'
    · rw [hlookup, sum_changed pair fun c hc => counted_eq hns hp hc]
  · -- pods of other namespaces are not counted
    refine ⟨s, if_pos hns, rfl, fun pair => ?_, h.paths⟩
    have hzero : podCount pod.podNamespace s.constraints node pair p = 0 :=
      podCount_eq_zero fun c _ => if_pos (.inr hns)
    rw [hzero]
    simp

lemma Counts.add (hp : Uncounted pod s.constraints p) :
    ∃ s', s.updateWithPod p pod (some node) 1 = some s' ∧ s'.constraints = s.constraints ∧
      Counts pod before after node (pods ++ [p]) s' := by
  obtain ⟨s', hs', hcs, hlookup, hpaths⟩ := h.updateWithPod helig hp 1
  refine ⟨s', hs', hcs, ⟨fun pair => ?_, hcs ▸ hpaths⟩⟩
  rw [hlookup, h.lookup, hcs, domains_cluster (pods ++ [p]) pods,
    spreadCount_pods_perm (perm_append_singleton p pods), spreadCount_cons]
  split
  · simp
  · rfl

lemma Counts.remove (hp : Uncounted pod s.constraints p) (hmem : p ∈ pods) :
    ∃ s', s.updateWithPod p pod (some node) (-1) = some s' ∧ s'.constraints = s.constraints ∧
      Counts pod before after node (pods.erase p) s' := by
  obtain ⟨s', hs', hcs, hlookup, hpaths⟩ := h.updateWithPod helig hp (-1)
  refine ⟨s', hs', hcs, ⟨fun pair => ?_, hcs ▸ hpaths⟩⟩
  have hcons : spreadCount pod.podNamespace s.constraints
      (withNodes (cluster before after node pods)) pair = _ :=
    spreadCount_pods_perm (perm_cons_erase hmem)
  rw [spreadCount_cons] at hcons
  rw [hlookup, h.lookup, hcs, domains_cluster (pods.erase p) pods, hcons]
  split
  · simp
  · rfl

end

lemma isSome_foldl_insert {K V E : Type} [DecidableEq K] (key : E → K)
    (value : GoMap K V → E → V) (l : List E) (m : GoMap K V) {k : K}
    (h : (m.lookup k).isSome = true ∨ k ∈ l.map key) :
    ((l.foldl (fun m e => m.insert (key e) (value m e)) m).lookup k).isSome = true := by
  induction l generalizing m with
  | nil => simpa using h
  | cons e l ih =>
    refine ih _ ?_
    rw [lookup_insert_if]
    by_cases hk : k = key e
    · left
      rw [if_pos hk]
      rfl
    · rw [if_neg hk]
      rcases h with hm | hmem
      · exact .inl hm
      · exact .inr ((mem_cons.1 hmem).resolve_left hk)

lemma isSome_criticalPaths (m : GoMap TopologyPair Int) (orders : Orders) (hc : c ∈ constraints) :
    ((criticalPaths constraints m orders).lookup c.topologyKey).isSome = true := by
  refine isSome_foldl_insert Prod.fst _ _ _ (.inl ?_)
  exact isSome_foldl_insert Constraint.topologyKey (fun _ _ => CriticalPaths.new) constraints ∅
    (.inr (List.mem_map.2 ⟨c, hc, rfl⟩))

lemma counts_of_ok
    (hs : pl.calPreFilterState pod (cluster before after node pods) orders = .ok s) :
    Counts pod before after node pods s := by
  obtain ⟨-, ⟨hnil, rfl⟩ | ⟨-, -, hstate⟩⟩ := hardConstraints_of_ok hs
  · -- no constraints, no domains
    refine ⟨fun pair => ?_, fun c hc => by cases hc⟩
    have hdomains : domains pod PreFilterState.empty.constraints
        (cluster before after node pods) = [] := by
      simp [domains, PreFilterState.empty]
    rw [hdomains]
    rfl
  · rw [hstate]
    exact ⟨fun pair => lookup_countPairs orders pair, fun c hc => isSome_criticalPaths _ _ hc⟩

/-- Other pods on the node do not make it fail. -/
lemma ok_of_ok
    (hs : pl.calPreFilterState pod (cluster before after node pods) orders = .ok s)
    (pods' : List Pod) (orders' : Orders) :
    ∃ s', pl.calPreFilterState pod (cluster before after node pods') orders' = .ok s' ∧
      s'.constraints = s.constraints := by
  obtain ⟨hc, ⟨hnil, -⟩ | ⟨hne, hnodes, -⟩⟩ := hardConstraints_of_ok hs
  · refine ⟨.empty, ?_, hnil.symm⟩
    unfold Plugin.calPreFilterState
    rw [hc, hnil]
    rfl
  · rw [calPreFilterState_eq hc hne]
    have hnodes' : (cluster before after node pods').any (fun n => n.node.isNone) = false := by
      rw [← hnodes]
      simp [cluster]
    rw [hnodes']
    exact ⟨_, rfl, rfl⟩

/-- What the extension calls keep. -/
structure DryRun.Inv (pod : IncomingPod) (before after : List NodeInfo) (node : Node)
    (constraints : List Constraint) (r : DryRun) : Prop where
  constraints_eq : r.state.constraints = constraints
  counts : Counts pod before after node r.pods r.state

lemma DryRun.Inv.step {r r' : DryRun} (h : r.Inv pod before after node constraints)
    (helig : eligible pod constraints node = true) {call : ExtensionCall}
    (hok : Uncounted pod constraints call.pod)
    (hstep : (dryRuns pod node s pods).step r call = some r') :
    r'.Inv pod before after node constraints := by
  obtain ⟨hcs, hcounts⟩ := h
  rw [← hcs] at hok helig
  cases call with
  | addPod p =>
    obtain ⟨s', hs', hsame, hcounts'⟩ := hcounts.add (p := p) helig hok
    simp only [dryRuns] at hstep
    rw [hs'] at hstep
    cases hstep
    exact ⟨hsame.trans hcs, hcounts'⟩
  | removePod p =>
    simp only [dryRuns] at hstep
    split_ifs at hstep with hmem
    obtain ⟨s', hs', hsame, hcounts'⟩ := hcounts.remove (p := p) helig hok hmem
    rw [hs'] at hstep
    cases hstep
    exact ⟨hsame.trans hcs, hcounts'⟩

end

/-- After any extension calls for the pods of one eligible node, the numbers are those that
are counted with the node's pods as they are then, in any order; and no call panics. -/
theorem spread_incremental (pl : Plugin) (pod : IncomingPod) (before after : List NodeInfo)
    (node : Node) (pods : List Pod) (orders : Orders) {s : PreFilterState}
    (hs : pl.calPreFilterState pod (cluster before after node pods) orders = .ok s)
    (helig : eligible pod s.constraints node = true) {tr : List ExtensionCall} {r : DryRun}
    (h : (dryRuns pod node s pods).ReachWhen
      (fun _ call => Uncounted pod s.constraints call.pod) tr r) :
    (∀ orders', ∃ s', pl.calPreFilterState pod (cluster before after node r.pods) orders' = .ok s' ∧
      ∀ pair, r.state.tpPairToMatchNum.lookup pair = s'.tpPairToMatchNum.lookup pair) ∧
    ∀ p delta, (r.state.updateWithPod p pod (some node) delta).isSome = true := by
  have hinv : r.Inv pod before after node s.constraints :=
    h.invariant (DryRun.Inv pod before after node s.constraints) ⟨rfl, counts_of_ok hs⟩
      fun _ _ _ hinv hok hstep => hinv.step helig hok hstep
  obtain ⟨hcs, hcounts⟩ := hinv
  refine ⟨fun orders' => ?_, fun p delta => ?_⟩
  · obtain ⟨s', hs', hsame⟩ := ok_of_ok hs r.pods orders'
    refine ⟨s', hs', fun pair => ?_⟩
    rw [hcounts.lookup, (counts_of_ok hs').lookup, hcs, hsame]
  · exact hcounts.isSome_updateWithPod (hcs ▸ helig) p delta

/-- The state for a cluster of one SSD node with this pod. -/
def ssdState (p : Pod) : PreFilterState :=
  let m := countPairs ssdPod [zoneConstraint] (cluster [] [] (zoneNode "ssd" "a" "ssd") [p]) inOrder
  ⟨[zoneConstraint], criticalPaths [zoneConstraint] m inOrder, m⟩

/-- A pod that is not terminating is removed and added again. -/
theorem spread_incremental_ssd :
    ∃ r, (dryRuns ssdPod (zoneNode "ssd" "a" "ssd") (ssdState (webPod none)) [webPod none]).ReachWhen
        (fun _ call => Uncounted ssdPod [zoneConstraint] call.pod)
        [.removePod (webPod none), .addPod (webPod none)] r ∧
      r.state.tpPairToMatchNum.lookup ("zone", "a") = some 1 ∧
      ∀ orders', ∃ s', noDefaults.calPreFilterState ssdPod
          (cluster [] [] (zoneNode "ssd" "a" "ssd") r.pods) orders' = .ok s' ∧
        ∀ pair, r.state.tpPairToMatchNum.lookup pair = s'.tpPairToMatchNum.lookup pair := by
  obtain ⟨r, hr, hlookup⟩ := Machine.exists_reachWhen
    (dryRuns ssdPod (zoneNode "ssd" "a" "ssd") (ssdState (webPod none)) [webPod none])
    (fun _ call => Uncounted ssdPod [zoneConstraint] call.pod)
    (fun r => r.state.tpPairToMatchNum.lookup ("zone", "a"))
    [.removePod (webPod none), .addPod (webPod none)] (some 1) (by decide +kernel)
  exact ⟨r, hr, hlookup, (spread_incremental noDefaults ssdPod [] [] (zoneNode "ssd" "a" "ssd")
    [webPod none] inOrder rfl (by decide +kernel) hr).1⟩

/-- A terminating pod is not counted, and yet it is subtracted when it is removed. -/
theorem spread_incremental_terminating :
    noDefaults.calPreFilterState ssdPod
        (cluster [] [] (zoneNode "ssd" "a" "ssd") [webPod (some 1)]) inOrder =
      .ok (ssdState (webPod (some 1))) ∧
    ∃ r, (dryRuns ssdPod (zoneNode "ssd" "a" "ssd") (ssdState (webPod (some 1)))
        [webPod (some 1)]).Reach [.removePod (webPod (some 1))] r ∧ r.pods = [] ∧
      r.state.tpPairToMatchNum.lookup ("zone", "a") = some (-1) ∧
      (countPairs ssdPod [zoneConstraint]
        (cluster [] [] (zoneNode "ssd" "a" "ssd") []) inOrder).lookup ("zone", "a") = some 0 := by
  refine ⟨rfl, ?_⟩
  obtain ⟨r, hr, hf⟩ := Machine.exists_reach
    (dryRuns ssdPod (zoneNode "ssd" "a" "ssd") (ssdState (webPod (some 1))) [webPod (some 1)])
    (fun r => (r.pods, r.state.tpPairToMatchNum.lookup ("zone", "a")))
    [.removePod (webPod (some 1))] ([], some (-1)) (by decide +kernel)
  simp only [Prod.mk.injEq] at hf
  exact ⟨r, hr, hf.1, hf.2, by decide +kernel⟩

/-! ## Nominated pods -/

/-- `addNominatedPods`, with the nominated pods that it adds. -/
def PreFilterState.addNominatedPods (s : PreFilterState) (pod : IncomingPod) (node : Node)
    (nominated : List Pod) : Option PreFilterState :=
  nominated.foldlM (fun s p => s.updateWithPod p pod (some node) 1) s

lemma isSome_addNominatedPods (s : PreFilterState) (pod : IncomingPod) (node : Node)
    (nominated : List Pod) :
    (s.addNominatedPods pod node nominated).isSome = true ↔ ∀ p ∈ nominated, s.Ready pod node p := by
  unfold PreFilterState.addNominatedPods
  induction nominated generalizing s with
  | nil => simp
  | cons p nominated ih =>
    rw [foldlM_cons, forall_mem_cons]
    rcases updateWithPod_cases s pod node p 1 with ⟨hp, s', hs', hsame, hdomain⟩ | ⟨hp, hnone⟩
    · have hready : ∀ q, s'.Ready pod node q ↔ s.Ready pod node q := by
        simp only [PreFilterState.Ready, hsame, hdomain, implies_true]
      rw [hs', bind_eq_bind, bind_some, ih]
      simp only [hready, hp, true_and]
    · rw [hnone]
      simp [hp]

/-- Adding nominated pods on a node does not panic exactly if the domains of the node that
count one of them are domains of nodes that the pod can be placed on. -/
theorem nominated_counted_iff (pl : Plugin) (pod : IncomingPod) (allNodes : List NodeInfo)
    (orders : Orders) {s : PreFilterState} (hs : pl.calPreFilterState pod allNodes orders = .ok s)
    (node : Node) (nominated : List Pod) :
    (s.addNominatedPods pod node nominated).isSome = true ↔
      ∀ p ∈ nominated, p.podNamespace = pod.podNamespace →
        nodeLabelsMatchSpreadConstraints node.labels s.constraints = true →
          ∀ c ∈ s.constraints, c.selector p.labels = true →
            c.pair node.labels ∈ domains pod s.constraints allNodes := by
  rw [isSome_addNominatedPods]
  obtain ⟨-, ⟨hnil, -⟩ | ⟨-, -, hstate⟩⟩ := hardConstraints_of_ok hs
  · simp [PreFilterState.Ready, hnil]
  have hdomain : ∀ c ∈ s.constraints,
      (s.HasDomain node c ↔ c.pair node.labels ∈ domains pod s.constraints allNodes) := by
    intro c hc
    unfold PreFilterState.HasDomain
    rw [hstate]
    simp [lookup_countPairs, isSome_criticalPaths _ _ hc]
  unfold PreFilterState.Ready
  refine forall₂_congr fun p _ => forall₂_congr fun _ _ => ?_
  exact forall₂_congr fun c hc => imp_congr_right fun _ => hdomain c hc

/-- The state for two nodes in these zones. -/
def twoZones (ssdZone hddZone : String) : PreFilterState :=
  let m := countPairs ssdPod [zoneConstraint] (twoNodes ssdZone hddZone) inOrder
  ⟨[zoneConstraint], criticalPaths [zoneConstraint] m inOrder, m⟩

theorem nominated_counted_together :
    ((twoZones "a" "a").addNominatedPods ssdPod (zoneNode "hdd" "a" "hdd") [webPod none]).isSome =
      true :=
  (nominated_counted_iff noDefaults ssdPod (twoNodes "a" "a") inOrder rfl _ _).2 (by decide +kernel)

/-- A pod nominated to a node that the pod cannot be placed on, in a zone of its own. -/
theorem nominated_panics :
    noDefaults.calPreFilterState ssdPod (twoNodes "a" "b") inOrder = .ok (twoZones "a" "b") ∧
      (twoZones "a" "b").addNominatedPods ssdPod (zoneNode "hdd" "b" "hdd") [webPod none] = none :=
  ⟨rfl, Option.isNone_iff_eq_none.1 (by decide +kernel)⟩

end Kubernetes.Scheduler.PodTopologySpread
