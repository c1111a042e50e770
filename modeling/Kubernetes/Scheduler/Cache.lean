import Kubernetes.LinkedList
import Kubernetes.Scheduler.NodeTree

/-! # The scheduler's view of the cluster

A model of `internal/cache/cache.go`. The cache keeps what is known about each pod
(`podStates`, and the keys of the pods that are only assumed to be bound), the
aggregated `NodeInfo` of each node, a linked list of these with the most recently
changed one at its head, the tree of node names by zone, and the nodes of each image.

A node that is removed while pods are still accounted to it stays as a *ghost*: a
`NodeInfo` without a node object.

The items of the linked list are addressed by the node's name. Times are integers.
The generation counter of the `framework` package is part of the state. `klog.Fatal`
and nil dereferences end the process (`Crash`); what `klog.Errorf` reports is
recorded in `logged`.
-/

namespace Kubernetes.Scheduler

open AList

structure PodState where
  pod : Pod
  deadline : Option Int
  bindingFinished : Bool

structure ImageState where
  size : Int
  nodes : Finset String

/-- The errors that the operations return. -/
inductive CacheError where
  | pod (err : PodError)
  /-- "pod is in the cache, so can't be assumed" -/
  | inCache (key : String)
  /-- "pod was assumed on assumed but assigned to current" -/
  | assignedElsewhere (key assumed current : String)
  /-- "pod wasn't assumed so cannot be forgotten" -/
  | notAssumed (key : String)
  /-- "pod was already in added state" -/
  | alreadyAdded (key : String)
  /-- "pod is not added to scheduler cache, so cannot be updated" -/
  | notAdded (key : String)
  /-- "pod is not found in scheduler cache, so cannot be removed from it" -/
  | notFound (key : String)
  /-- "node is not found" -/
  | nodeNotFound (name : String)
  | tree (err : TreeError)
deriving DecidableEq

/-- What ends the process. -/
inductive Crash where
  /-- "Schedulercache is corrupted and can badly affect scheduling decisions" -/
  | corrupted
  /-- "Key found in assumed set but not in podStates" -/
  | assumedWithoutState
  /-- nil dereference of `*ps.deadline` -/
  | nilDeadline
  /-- nil dereference of `n.node.Name` in `NodeInfo.RemovePod` -/
  | nilNode
deriving DecidableEq

/-- What is reported with `klog.Errorf`. -/
inductive CacheLog where
  /-- "No NodeInfo with name found in the cache" -/
  | noNodeInfo (name : String)
  /-- "node not found when trying to remove pod" -/
  | nodeOfPodNotFound (node pod : String)
  /-- "removing pod error" -/
  | removingPod (err : CacheError)
  /-- "ExpirePod failed" -/
  | expirePodFailed (key : String) (err : CacheError)
deriving DecidableEq

structure SchedulerCache where
  ttl : Int
  assumedPods : Finset String
  podStates : GoMap String PodState
  nodes : GoMap String NodeInfo
  /-- `headNode` and the links between the items of `nodes` -/
  links : Links String
  nodeTree : NodeTree
  imageStates : GoMap String ImageState
  generation : Nat
  logged : List CacheLog

/-- The cache after a call, and the error that the call returns. -/
abbrev CacheResult := Except Crash (SchedulerCache × Option CacheError)

namespace SchedulerCache

def new (ttl : Int) : SchedulerCache where
  ttl := ttl
  assumedPods := ∅
  podStates := ∅
  nodes := ∅
  links := .empty
  nodeTree := .new
  imageStates := ∅
  generation := 0
  logged := []

variable (c : SchedulerCache)

def log (entry : CacheLog) : SchedulerCache :=
  { c with logged := c.logged ++ [entry] }

/-! ## The list of node infos -/

/-- `nextGeneration()` -/
def bump : SchedulerCache := { c with generation := c.generation + 1 }

variable (name : String)

/-- The `NodeInfo` of `name`, created with its list item if it is missing. -/
def ensureNodeInfo : SchedulerCache × NodeInfo :=
  match c.nodes.lookup name with
  | some info => (c, info)
  | none =>
    let c := c.bump
    let info := NodeInfo.new c.generation
    ({ c with nodes := c.nodes.insert name info, links := c.links.alloc name }, info)

/-- Write back a changed `NodeInfo`. -/
def setInfo (info : NodeInfo) : SchedulerCache :=
  { c with nodes := c.nodes.insert name info }

def moveNodeInfoToHead : SchedulerCache :=
  if name ∈ c.nodes then { c with links := c.links.moveToHead name }
  else c.log (.noNodeInfo name)

def removeNodeInfoFromList : SchedulerCache :=
  if name ∈ c.nodes then
    { c with links := c.links.remove name, nodes := c.nodes.erase name }
  else c.log (.noNodeInfo name)

/-! ## Images -/

/-- The names of the node's images with the size of the image. -/
def imagesOf (node : Node) : List (String × Int) :=
  node.images.flatMap fun image => image.names.map fun name => (name, image.sizeBytes)

/-- The loop body of `addNodeImageStates`: enter the node for one image, and summarise it. -/
def addImage (nodeName : String)
    (acc : GoMap String ImageState × GoMap String ImageStateSummary) (image : String × Int) :
    GoMap String ImageState × GoMap String ImageStateSummary :=
  let state : ImageState :=
    match acc.1.lookup image.1 with
    | none => ⟨image.2, {nodeName}⟩
    | some state => { state with nodes := insert nodeName state.nodes }
  (acc.1.insert image.1 state,
    if image.1 ∈ acc.2 then acc.2 else acc.2.insert image.1 ⟨state.size, state.nodes.card⟩)

variable (imageStates : GoMap String ImageState)

/-- `addNodeImageStates`: the new image states and the summary for the node info. -/
def addNodeImageStates (node : Node) : GoMap String ImageState × GoMap String ImageStateSummary :=
  (imagesOf node).foldl (addImage node.name) (imageStates, ∅)

/-- The loop body of `removeNodeImageStates`: an image without nodes is dropped. -/
def removeImage (nodeName : String) (imageStates : GoMap String ImageState) (name : String) :
    GoMap String ImageState :=
  match imageStates.lookup name with
  | none => imageStates
  | some state =>
    let nodes := state.nodes.erase nodeName
    if nodes = ∅ then imageStates.erase name
    else imageStates.insert name { state with nodes := nodes }

def removeNodeImageStates :
    Option Node → GoMap String ImageState
  | none => imageStates
  | some node =>
    ((imagesOf node).map (·.1)).foldl (removeImage node.name) imageStates

/-! ## Nodes -/

variable (cfg : Config) (c : SchedulerCache)

/-- The common end of `AddNode` and `UpdateNode`: the images of the node and the
node object itself, in the `NodeInfo` that is there by now. -/
def putNode (node : Node) (info : NodeInfo) : SchedulerCache :=
  let images := addNodeImageStates c.imageStates node
  let c := { c with imageStates := images.1 }.bump
  c.setInfo node.name ({ info with imageStates := images.2 }.setNode cfg node c.generation)

def addNode (node : Node) : SchedulerCache :=
  let images := (c.nodes.lookup node.name).elim c.imageStates fun info =>
    removeNodeImageStates c.imageStates info.node
  let (c, info) := { c with imageStates := images }.ensureNodeInfo node.name
  let c := c.moveNodeInfoToHead node.name
  let c := { c with nodeTree := c.nodeTree.addNode node }
  c.putNode cfg node info

def updateNode (oldNode newNode : Node) : SchedulerCache :=
  let images := (c.nodes.lookup newNode.name).elim c.imageStates fun info =>
    removeNodeImageStates c.imageStates info.node
  let nodeTree :=
    if newNode.name ∈ c.nodes then c.nodeTree else c.nodeTree.addNode newNode
  let (c, info) :=
    { c with imageStates := images, nodeTree := nodeTree }.ensureNodeInfo newNode.name
  let c := c.moveNodeInfoToHead newNode.name
  let c := { c with nodeTree := c.nodeTree.updateNode oldNode newNode }
  c.putNode cfg newNode info

/-- `RemoveNode`: the node info goes first, then the tree, then the images, with an
early return when the tree does not have the node in the zone of the argument. -/
def removeNode (node : Node) : SchedulerCache × Option CacheError :=
  match c.nodes.lookup node.name with
  | none => (c, some (.nodeNotFound node.name))
  | some info =>
    let c := c.bump
    let c := c.setInfo node.name (info.removeNode c.generation)
    let c :=
      if info.pods = [] then c.removeNodeInfoFromList node.name
      else c.moveNodeInfoToHead node.name
    match c.nodeTree.removeNode node with
    | (tree, some err) => ({ c with nodeTree := tree }, some (.tree err))
    | (tree, none) =>
      ({ c with
          nodeTree := tree
          imageStates := removeNodeImageStates c.imageStates (some node) },
        none)

/-! ## Pods -/

variable (pod : Pod)

/-- `addPod`, which assumes the lock. -/
def addPodLocked : SchedulerCache :=
  let (c, info) := c.ensureNodeInfo pod.nodeName
  let c := c.bump
  let c := c.setInfo pod.nodeName (info.addPod cfg pod c.generation)
  c.moveNodeInfoToHead pod.nodeName

/-- `removePod`, which assumes the lock. A ghost without pods is dropped. -/
def removePodLocked : CacheResult :=
  match c.nodes.lookup pod.nodeName with
  | none => .ok (c.log (.nodeOfPodNotFound pod.nodeName pod.name), none)
  | some info =>
    match info.removePod cfg pod (c.generation + 1) with
    | .panicked => .error .nilNode
    | .failed info err => .ok (c.setInfo pod.nodeName info, some (.pod err))
    | .removed info =>
      let c := c.bump.setInfo pod.nodeName info
      if info.pods = [] ∧ info.node = none then
        .ok (c.removeNodeInfoFromList pod.nodeName, none)
      else .ok (c.moveNodeInfoToHead pod.nodeName, none)

/-- `updatePod`, which assumes the lock. -/
def updatePodLocked (oldPod newPod : Pod) : CacheResult := do
  match ← c.removePodLocked cfg oldPod with
  | (c, some err) => return (c, some err)
  | (c, none) => return (c.addPodLocked cfg newPod, none)

def assumePod : SchedulerCache × Option CacheError :=
  match getPodKey pod with
  | .error err => (c, some (.pod err))
  | .ok key =>
    if key ∈ c.podStates then (c, some (.inCache key))
    else
      let c := c.addPodLocked cfg pod
      ({ c with
          podStates := c.podStates.insert key ⟨pod, none, false⟩
          assumedPods := insert key c.assumedPods },
        none)

/-- `FinishBinding` at time `now`. -/
def finishBinding (now : Int) : SchedulerCache × Option CacheError :=
  match getPodKey pod with
  | .error err => (c, some (.pod err))
  | .ok key =>
    match c.podStates.lookup key with
    | none => (c, none)
    | some currState =>
      if key ∈ c.assumedPods then
        ({ c with
            podStates := c.podStates.insert key
              { currState with bindingFinished := true, deadline := some (now + c.ttl) } },
          none)
      else (c, none)

/-- Take the pod with `key` out of the accounts; the common end of `ForgetPod` and
`expirePod`. -/
def dropPod (key : String) : SchedulerCache :=
  { c with assumedPods := c.assumedPods.erase key, podStates := c.podStates.erase key }

def forgetPod : CacheResult :=
  match getPodKey pod with
  | .error err => .ok (c, some (.pod err))
  | .ok key =>
    match c.podStates.lookup key with
    | none => .ok (c, some (.notAssumed key))
    | some currState =>
      if currState.pod.nodeName ≠ pod.nodeName then
        .ok (c, some (.assignedElsewhere key pod.nodeName currState.pod.nodeName))
      else if key ∈ c.assumedPods then do
        match ← c.removePodLocked cfg pod with
        | (c, some err) => return (c, some err)
        | (c, none) => return (c.dropPod key, none)
      else .ok (c, some (.notAssumed key))

/-- An assumed pod turns up on another node than the one assumed: it is moved, and
an error of the removal is only reported. -/
def relocatePod (assumed pod : Pod) : Except Crash SchedulerCache := do
  match ← c.removePodLocked cfg assumed with
  | (c, some err) => return (c.log (.removingPod err)).addPodLocked cfg pod
  | (c, none) => return c.addPodLocked cfg pod

def addPod : CacheResult :=
  match getPodKey pod with
  | .error err => .ok (c, some (.pod err))
  | .ok key =>
    match c.podStates.lookup key with
    | none =>
      -- the pod was expired, it is added back
      let c := c.addPodLocked cfg pod
      .ok ({ c with podStates := c.podStates.insert key ⟨pod, none, false⟩ }, none)
    | some currState =>
      if key ∈ c.assumedPods then do
        let c ←
          if currState.pod.nodeName ≠ pod.nodeName then c.relocatePod cfg currState.pod pod
          else pure c
        return ({ c with
          assumedPods := c.assumedPods.erase key
          podStates := c.podStates.insert key { currState with deadline := none, pod := pod } },
          none)
      else .ok (c, some (.alreadyAdded key))

def updatePod (oldPod newPod : Pod) : CacheResult :=
  match getPodKey oldPod with
  | .error err => .ok (c, some (.pod err))
  | .ok key =>
    match c.podStates.lookup key with
    | none => .ok (c, some (.notAdded key))
    | some currState =>
      if key ∈ c.assumedPods then .ok (c, some (.notAdded key))
      else if currState.pod.nodeName ≠ newPod.nodeName then .error .corrupted
      else do
        match ← c.updatePodLocked cfg oldPod newPod with
        | (c, some err) => return (c, some err)
        | (c, none) =>
          return ({ c with podStates := c.podStates.insert key { currState with pod := newPod } },
            none)

def removePod : CacheResult :=
  match getPodKey pod with
  | .error err => .ok (c, some (.pod err))
  | .ok key =>
    match c.podStates.lookup key with
    | none => .ok (c, some (.notFound key))
    | some currState =>
      if key ∈ c.assumedPods then .ok (c, some (.notFound key))
      else if currState.pod.nodeName ≠ pod.nodeName then .error .corrupted
      else do
        match ← c.removePodLocked cfg currState.pod with
        | (c, some err) => return (c, some err)
        | (c, none) => return ({ c with podStates := c.podStates.erase key }, none)

def expirePod (key : String) (ps : PodState) : CacheResult := do
  match ← c.removePodLocked cfg ps.pod with
  | (c, some err) => return (c, some err)
  | (c, none) => return (c.dropPod key, none)

/-- The loop body of `cleanupAssumedPods`. -/
def cleanupAssumedPod (now : Int) (c : SchedulerCache) (key : String) :
    Except Crash SchedulerCache :=
  match c.podStates.lookup key with
  | none => .error .assumedWithoutState
  | some ps =>
    if !ps.bindingFinished then .ok c
    else
      match ps.deadline with
      | none => .error .nilDeadline
      | some deadline =>
        if deadline < now then do
          match ← c.expirePod cfg key ps with
          | (c, some err) => return c.log (.expirePodFailed key err)
          | (c, none) => return c
        else .ok c

/-- `cleanupAssumedPods`, ranging over `assumedPods` in the given order. -/
def cleanupAssumedPods (now : Int) (order : List String) : Except Crash SchedulerCache :=
  order.foldlM (cleanupAssumedPod cfg now) c

/-! ## Calls -/

/-- One call, with the clock reading and the iteration order it uses. -/
inductive Op where
  | addNode (node : Node)
  | updateNode (oldNode newNode : Node)
  | removeNode (node : Node)
  | assumePod (pod : Pod)
  | finishBinding (pod : Pod) (now : Int)
  | forgetPod (pod : Pod)
  | addPod (pod : Pod)
  | updatePod (oldPod newPod : Pod)
  | removePod (pod : Pod)
  | cleanupAssumedPods (now : Int) (order : List String)

/-- The state and the error after a call, or the crash it ends in. -/
def exec : Op → CacheResult
  | .addNode node => .ok (c.addNode cfg node, none)
  | .updateNode oldNode newNode => .ok (c.updateNode cfg oldNode newNode, none)
  | .removeNode node => .ok (c.removeNode node)
  | .assumePod pod => .ok (c.assumePod cfg pod)
  | .finishBinding pod now => .ok (c.finishBinding pod now)
  | .forgetPod pod => c.forgetPod cfg pod
  | .addPod pod => c.addPod cfg pod
  | .updatePod oldPod newPod => c.updatePod cfg oldPod newPod
  | .removePod pod => c.removePod cfg pod
  | .cleanupAssumedPods now order => do
    let c ← c.cleanupAssumedPods cfg now order
    return (c, none)

/-! ## What the calls do to the list of node infos

Every change of a `NodeInfo` is a `touch`: it is written back with a new generation
and moved to the head of the list. -/

variable (name : String)

/-- The `NodeInfo` that a call on `name` starts from. -/
def infoAt : NodeInfo :=
  (c.nodes.lookup name).getD (NodeInfo.new (c.generation + 1))

/-- The generation that a call on `name` gives it; creating the `NodeInfo` takes one more. -/
def nextGeneration : Nat :=
  if name ∈ c.nodes then c.generation + 1 else c.generation + 2

/-- The links with room for `name`. -/
def linksFor : Links String :=
  if name ∈ c.nodes then c.links else c.links.alloc name

def touch (info : NodeInfo) : SchedulerCache :=
  { c with
    generation := info.generation
    nodes := c.nodes.insert name info
    links := (c.linksFor name).moveToHead name }

/-- Drop the item of `name` at the given generation. -/
def dropItem (generation : Nat) : SchedulerCache :=
  { c with
    generation := generation
    nodes := c.nodes.erase name
    links := c.links.remove name }

variable {c : SchedulerCache} {info : NodeInfo}

lemma infoAt_of_lookup {name : String} (h : c.nodes.lookup name = some info) :
    c.infoAt name = info := by
  simp [infoAt, h]

lemma mem_of_lookup {name : String} (h : c.nodes.lookup name = some info) : name ∈ c.nodes :=
  GoMap.mem_iff_lookup.2 ⟨info, h⟩

variable (c)

lemma generation_lt_nextGeneration (name : String) : c.generation < c.nextGeneration name := by
  unfold nextGeneration
  split <;> omega

lemma addPodLocked_eq (pod : Pod) :
    c.addPodLocked cfg pod =
      c.touch pod.nodeName
        ((c.infoAt pod.nodeName).addPod cfg pod (c.nextGeneration pod.nodeName)) := by
  unfold addPodLocked ensureNodeInfo
  cases hl : c.nodes.lookup pod.nodeName with
  | some info =>
    have hmem := mem_of_lookup hl
    simp [moveNodeInfoToHead, setInfo, bump, touch, linksFor, nextGeneration, infoAt, hl, hmem,
      NodeInfo.addPod]
  | none =>
    have hmem : pod.nodeName ∉ c.nodes := lookup_eq_none.1 hl
    simp [moveNodeInfoToHead, setInfo, bump, touch, linksFor, nextGeneration, infoAt, hl, hmem,
      NodeInfo.addPod]

/-- The image states without the node that is cached under `name`. -/
def imagesWithout (name : String) : GoMap String ImageState :=
  removeNodeImageStates c.imageStates (c.infoAt name).node

/-- The `NodeInfo` after `AddNode` or `UpdateNode`. -/
def withNode (node : Node) : NodeInfo :=
  NodeInfo.setNode cfg
    { c.infoAt node.name with
      imageStates := (addNodeImageStates (c.imagesWithout node.name) node).2 }
    node (c.nextGeneration node.name)

lemma addNode_eq (node : Node) :
    c.addNode cfg node =
      { c.touch node.name (c.withNode cfg node) with
        nodeTree := c.nodeTree.addNode node
        imageStates := (addNodeImageStates (c.imagesWithout node.name) node).1 } := by
  unfold addNode ensureNodeInfo putNode
  cases hl : c.nodes.lookup node.name with
  | some info =>
    have hmem := mem_of_lookup hl
    simp [moveNodeInfoToHead, setInfo, bump, touch, linksFor, nextGeneration, infoAt, hl, hmem,
      withNode, imagesWithout, NodeInfo.setNode]
  | none =>
    have hmem : node.name ∉ c.nodes := lookup_eq_none.1 hl
    simp [moveNodeInfoToHead, setInfo, bump, touch, linksFor, nextGeneration, infoAt, hl, hmem,
      withNode, imagesWithout, NodeInfo.setNode, NodeInfo.new, removeNodeImageStates]

lemma updateNode_eq (oldNode newNode : Node) :
    c.updateNode cfg oldNode newNode =
      { c.touch newNode.name (c.withNode cfg newNode) with
        nodeTree :=
          (if newNode.name ∈ c.nodes then c.nodeTree else c.nodeTree.addNode newNode).updateNode
            oldNode newNode
        imageStates := (addNodeImageStates (c.imagesWithout newNode.name) newNode).1 } := by
  unfold updateNode ensureNodeInfo putNode
  cases hl : c.nodes.lookup newNode.name with
  | some info =>
    have hmem := mem_of_lookup hl
    simp [moveNodeInfoToHead, setInfo, bump, touch, linksFor, nextGeneration, infoAt, hl, hmem,
      withNode, imagesWithout, NodeInfo.setNode]
  | none =>
    have hmem : newNode.name ∉ c.nodes := lookup_eq_none.1 hl
    simp [moveNodeInfoToHead, setInfo, bump, touch, linksFor, nextGeneration, infoAt, hl, hmem,
      withNode, imagesWithout, NodeInfo.setNode, NodeInfo.new, removeNodeImageStates]

/-- The cache after the first half of `RemoveNode`: the node object is gone, and the
`NodeInfo` with it unless pods are accounted to it. -/
def ghosted (name : String) (info : NodeInfo) : SchedulerCache :=
  if info.pods = [] then c.dropItem name (c.generation + 1)
  else c.touch name (info.removeNode (c.generation + 1))

variable {c}

lemma removeNode_eq {node : Node} (hl : c.nodes.lookup node.name = some info) :
    c.removeNode node =
      ({ c.ghosted node.name info with
          nodeTree := (c.nodeTree.removeNode node).1
          imageStates :=
            if (c.nodeTree.removeNode node).2 = none then
              removeNodeImageStates c.imageStates (some node)
            else c.imageStates },
        (c.nodeTree.removeNode node).2.map .tree) := by
  have hmem := mem_of_lookup hl
  unfold removeNode ghosted
  simp only [hl]
  by_cases hp : info.pods = []
  · simp only [hp, if_true, removeNodeInfoFromList, setInfo, bump, mem_insert, true_or,
      GoMap.erase_insert, dropItem]
    rcases c.nodeTree.removeNode node with ⟨tree, _ | err⟩ <;> rfl
  · simp only [hp, if_false, moveNodeInfoToHead, setInfo, bump, mem_insert, true_or,
      if_true, touch, linksFor, hmem, NodeInfo.removeNode]
    rcases c.nodeTree.removeNode node with ⟨tree, _ | err⟩ <;> rfl

lemma removePodLocked_cases (c : SchedulerCache) (pod : Pod) :
    (c.nodes.lookup pod.nodeName = none ∧
        c.removePodLocked cfg pod =
          .ok (c.log (.nodeOfPodNotFound pod.nodeName pod.name), none)) ∨
      ∃ info, c.nodes.lookup pod.nodeName = some info ∧
        ((∃ info', info.removePod cfg pod (c.generation + 1) = .removed info' ∧
            c.removePodLocked cfg pod =
              .ok (if info'.pods = [] ∧ info'.node = none then
                  c.dropItem pod.nodeName (c.generation + 1)
                else c.touch pod.nodeName info', none)) ∨
          (∃ info' err, info.removePod cfg pod (c.generation + 1) = .failed info' err ∧
            c.removePodLocked cfg pod =
              .ok (c.setInfo pod.nodeName info', some (.pod err))) ∨
          (info.removePod cfg pod (c.generation + 1) = .panicked ∧
            c.removePodLocked cfg pod = .error .nilNode)) := by
  unfold removePodLocked
  cases hl : c.nodes.lookup pod.nodeName with
  | none => exact .inl ⟨rfl, rfl⟩
  | some info =>
    have hmem := mem_of_lookup hl
    refine .inr ⟨info, rfl, ?_⟩
    rcases NodeInfo.removePod_cases cfg info pod (c.generation + 1) with
      ⟨m, hm, -, -, -, hgen⟩ | ⟨m, err, hm, -⟩ | ⟨hm, -⟩
    · refine .inl ⟨m, hm, ?_⟩
      simp only [hm]
      by_cases hp : m.pods = [] ∧ m.node = none
      · simp only [if_pos hp, removeNodeInfoFromList, setInfo, bump, mem_insert, true_or,
          if_true, GoMap.erase_insert, dropItem]
      · simp only [if_neg hp, moveNodeInfoToHead, setInfo, bump, mem_insert, true_or,
          if_true, touch, linksFor, hmem, hgen]
    · refine .inr (.inl ⟨m, err, hm, ?_⟩)
      simp only [hm]
    · refine .inr (.inr ⟨hm, ?_⟩)
      simp only [hm]

end SchedulerCache

end Kubernetes.Scheduler
