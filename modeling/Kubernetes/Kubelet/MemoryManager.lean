import Kubernetes.Kubelet.Pod
import Kubernetes.Kubelet.TopologyManager
import Kubernetes.NestedMap

/-! # Memory on NUMA nodes

A model of the static policy of the memory manager (`memorymanager/policy_static.go`) on its
state (`memorymanager/state`). Each NUMA node has a table for regular memory and for each size
of huge pages. A container gets its memory on a group of nodes; while some container has
memory on a group, its nodes are used for this group only.

This module has the code and its runs. A nil pointer that is followed ends the kubelet; it is
the failure `panic`, while the error of a call is `error`.
-/

namespace Kubernetes.Kubelet.MemoryManager

/-! ## The state -/

structure MemoryTable where
  totalMemSize : UInt64
  systemReserved : UInt64
  allocatable : UInt64
  reserved : UInt64
  free : UInt64
deriving DecidableEq

structure NUMANodeState where
  numberOfAssignments : Int
  memoryMap : GoMap ResourceName MemoryTable
  cells : List Int
deriving DecidableEq

abbrev NUMANodeMap := GoMap Int NUMANodeState

structure Block where
  numaAffinity : List Int
  type : ResourceName
  size : UInt64
deriving DecidableEq

structure StateMemory where
  assignments : GoMap String (GoMap String (List Block))
  machineState : NUMANodeMap
deriving DecidableEq

variable (s : StateMemory)

namespace StateMemory

def new : StateMemory := ⟨∅, ∅⟩

variable (podUID containerName : String)

def getMemoryBlocks : Option (List Block) :=
  NestedMap.get s.assignments podUID containerName

def setMachineState (nodeMap : NUMANodeMap) : StateMemory :=
  { s with machineState := nodeMap }

def setMemoryBlocks (blocks : List Block) : StateMemory :=
  { s with assignments := NestedMap.put s.assignments podUID containerName blocks }

def delete : StateMemory :=
  { s with assignments := NestedMap.delete s.assignments podUID containerName }

/-- All blocks that are assigned to containers. -/
def blocks : List Block := (NestedMap.values s.assignments).flatten

end StateMemory

/-- Why a call does not complete. -/
inductive Failure where
  /-- A nil pointer is followed. -/
  | panic
  | error (message : String)
deriving DecidableEq

/-- Follow a pointer. -/
def deref {α : Type} : Option α → Except Failure α
  | some a => .ok a
  | none => .error .panic

variable (machineState : NUMANodeMap)

def tableAt (nodeID : Int) (resourceName : ResourceName) : Option MemoryTable :=
  (machineState.lookup nodeID).bind fun nodeState => nodeState.memoryMap.lookup resourceName

/-! ## The machine -/

/-- `cadvisorapi.HugePagesInfo`, with the page size in KiB. -/
structure HugePagesInfo where
  pageSize : UInt64
  numPages : UInt64

/-- `cadvisorapi.Node` -/
structure NUMANode where
  id : Int
  memory : UInt64
  hugePages : List HugePagesInfo := []

/-- `staticPolicy` -/
structure Policy where
  /-- `machineInfo.Topology` -/
  topology : List NUMANode
  systemReserved : GoMap Int (GoMap ResourceName UInt64)

variable (p : Policy)

def getResourceSystemReserved (nodeID : Int) (resourceName : ResourceName) : UInt64 :=
  (NestedMap.get p.systemReserved nodeID resourceName).getD 0

/-- A table of which nothing is used yet. -/
def MemoryTable.unused (totalMemSize systemReserved allocatable : UInt64) : MemoryTable where
  totalMemSize
  systemReserved
  allocatable
  reserved := 0
  free := allocatable

/-- The tables of the huge pages of a node, with `nodeHugepages`. -/
def addHugePages (nodeID : Int)
    (acc : GoMap ResourceName MemoryTable × GoMap Int UInt64) (hugepage : HugePagesInfo) :
    GoMap ResourceName MemoryTable × GoMap Int UInt64 :=
  let resourceName := .hugePages (hugepage.pageSize * 1024).toNat
  let systemReserved := getResourceSystemReserved p nodeID resourceName
  let totalHugepagesSize := hugepage.numPages * hugepage.pageSize * 1024
  (acc.1.insert resourceName
      (.unused totalHugepagesSize systemReserved (totalHugepagesSize - systemReserved)),
    acc.2.insert nodeID ((acc.2.lookup nodeID).getD 0 + totalHugepagesSize))

/-- One node of `getDefaultMachineState`. -/
def addNUMANode (acc : NUMANodeMap × GoMap Int UInt64) (node : NUMANode) :
    NUMANodeMap × GoMap Int UInt64 :=
  let (memoryMap, nodeHugepages) := node.hugePages.foldl (addHugePages p node.id) (∅, acc.2)
  let systemReserved := getResourceSystemReserved p node.id .memory
  let allocatable := node.memory - systemReserved - (nodeHugepages.lookup node.id).getD 0
  let memoryMap := memoryMap.insert .memory (.unused node.memory systemReserved allocatable)
  (acc.1.insert node.id ⟨0, memoryMap, [node.id]⟩, nodeHugepages)

def getDefaultMachineState : NUMANodeMap :=
  (p.topology.foldl (addNUMANode p) (∅, ∅)).1

/-! ## Hints -/

def getRequestedResources (container : Container) :
    Except Failure (GoMap ResourceName UInt64) :=
  container.requests.entries.foldlM (fun requested e =>
    if e.1 ≠ .memory ∧ isHugePageResourceName e.1 = false then .ok requested
    else match e.2.asInt64 with
      | none => .error (.error "[memorymanager] failed to represent quantity as int64")
      | some size => .ok (requested.insert e.1 (UInt64.ofNat size))) ∅

/-- `sort.Ints` -/
def sortInts (l : List Int) : List Int := l.insertionSort (· ≤ ·)

def areGroupsEqual (group1 group2 : List Int) : Bool := sortInts group1 = sortInts group2

/-- A `TopologyHint` whose `NUMANodeAffinity` is not nil. -/
structure Hint where
  mask : BitMask
  preferred : Bool
deriving DecidableEq

/-- Add the sizes of one node to the totals of the requested resources. -/
def addSizes (size : MemoryTable → UInt64) (machineState : NUMANodeMap)
    (requested : List ResourceName) (nodeID : Int) (total : GoMap ResourceName UInt64) :
    Except Failure (GoMap ResourceName UInt64) :=
  requested.foldlM (fun total resourceName => do
    let table ← deref (tableAt machineState nodeID resourceName)
    return total.insert resourceName ((total.lookup resourceName).getD 0 + size table)) total

structure Totals where
  free : GoMap ResourceName UInt64
  allocatable : GoMap ResourceName UInt64

/-- A node may be used with the nodes of the mask. -/
def mayUse (maskBits : List Int) (nodeID : Int) : Except Failure Bool := do
  let nodeState ← deref (machineState.lookup nodeID)
  if maskBits.length = 1 then
    -- the node already in group with another node
    return nodeState.cells.length ≤ 1
  if 0 < nodeState.numberOfAssignments then
    -- the node used for the single NUMA memory allocation, or with a different group of nodes
    return nodeState.cells.length ≠ 1 && areGroupsEqual nodeState.cells maskBits
  return true

/-- The loop over the nodes of a mask, which some node may leave early. -/
def sumNodes (machineState : NUMANodeMap) (requested : List ResourceName) (maskBits : List Int) :
    List Int → Totals → Except Failure (Option Totals)
  | [], totals => .ok (some totals)
  | nodeID :: nodes, totals => do
    if ← mayUse machineState maskBits nodeID then
      let free ← addSizes (·.free) machineState requested nodeID totals.free
      let allocatable ← addSizes (·.allocatable) machineState requested nodeID totals.allocatable
      sumNodes machineState requested maskBits nodes ⟨free, allocatable⟩
    else return none

/-- Some resource has a smaller total than requested. -/
def notEnough (requestedResources total : GoMap ResourceName UInt64) : Bool :=
  requestedResources.entries.any fun e => (total.lookup e.1).getD 0 < e.2

/-- What the callback of `calculateHints` changes. -/
structure HintState where
  minAffinitySize : Nat
  hints : GoMap ResourceName (List BitMask)

variable (requestedResources : GoMap ResourceName UInt64) (mask : BitMask)

def addHint (totals : Totals) (st : HintState) : HintState :=
  if notEnough requestedResources totals.allocatable then st
  else
    let minAffinitySize := min st.minAffinitySize mask.count
    if notEnough requestedResources totals.free then { st with minAffinitySize }
    else
      { minAffinitySize
        hints := requestedResources.keys.foldl (fun hints resourceName =>
          hints.insert resourceName ((hints.lookup resourceName).getD [] ++ [mask])) st.hints }

/-- The callback of `calculateHints`. -/
def considerMask (st : HintState) (bits : List Int) : Except Failure HintState := do
  let mask ← deref (BitMask.newBitMask bits).toOption
  let totals ← sumNodes machineState requestedResources.keys mask.getBits mask.getBits ⟨∅, ∅⟩
  return totals.elim st fun totals => addHint requestedResources mask totals st

def iterateBitMasks (bits : List Int) : List (List Int) :=
  (List.range bits.length).flatMap fun i => BitMask.iterate (i + 1) bits []

def isHintPreferred (maskBits : List Int) (minAffinitySize : Nat) : Bool :=
  maskBits.length = minAffinitySize

def calculateHints : Except Failure (GoMap ResourceName (List Hint)) := do
  let numaNodes := sortInts machineState.keys
  let st ← (iterateBitMasks numaNodes).foldlM (considerMask machineState requestedResources)
    ⟨numaNodes.length, ∅⟩
  return GoMap.mapVal (fun masks => masks.map fun mask =>
    ⟨mask, isHintPreferred mask.getBits st.minAffinitySize⟩) st.hints

/-- The loop of `findBestHint`; `none` is the hint with a nil affinity. -/
def betterHint (bestHint : Option Hint) (hint : Hint) : Option Hint :=
  match bestHint with
  | none => some hint
  | some best =>
    if hint.preferred && !best.preferred then some hint
    else if hint.preferred = best.preferred ∧ hint.mask.isNarrowerThan best.mask then some hint
    else some best

def findBestHint (hints : List Hint) : Option Hint := hints.foldl betterHint none

def getDefaultHint : Except Failure (Option Hint) := do
  let hints ← calculateHints machineState requestedResources
  if hints.keys = [] then
    throw (.error
      "[memorymanager] failed to get the default NUMA affinity, no NUMA nodes with enough memory is available")
  return findBestHint ((hints.lookup .memory).getD [])

/-- The totals of free memory of `isAffinitySatisfyRequest`. -/
def freeSizes (requested : List ResourceName) : Except Failure (GoMap ResourceName UInt64) :=
  mask.getBits.foldlM (fun total nodeID => addSizes (·.free) machineState requested nodeID total) ∅

def isAffinitySatisfyRequest
    (requestedResources : GoMap ResourceName UInt64) : Except Failure Bool := do
  let totalFreeSize ← freeSizes machineState mask requestedResources.keys
  return !notEnough requestedResources totalFreeSize

/-- The loop of `isHintInGroup`. -/
def isHintInGroupFrom (hint : List Int) : Nat → List Int → Bool
  | _, [] => false
  | hintIndex, elem :: group =>
    if hintIndex = hint.length then true
    else if hint[hintIndex]? ≠ some elem then isHintInGroupFrom hint hintIndex group
    else isHintInGroupFrom hint (hintIndex + 1) group

def isHintInGroup (hint group : List Int) : Bool :=
  isHintInGroupFrom (sortInts hint) 0 (sortInts group)

def extendTopologyManagerHint : Except Failure (Option Hint) := do
  let hints ← calculateHints machineState requestedResources
  let filteredHints := ((hints.lookup .memory).getD []).filter fun hint =>
    isHintInGroup mask.getBits hint.mask.getBits
  if filteredHints = [] then
    throw (.error "[memorymanager] failed to find NUMA nodes to extend the current topology hint")
  return findBestHint filteredHints

/-! ## Allocation -/

/-- Use the free memory of a table for a request; what is left of the request. -/
def MemoryTable.take (t : MemoryTable) (requestedSize : UInt64) : MemoryTable × UInt64 :=
  if t.free ≤ 0 then (t, requestedSize)
  else if t.free ≥ requestedSize then
    ({ t with reserved := t.reserved + requestedSize, free := t.free - requestedSize }, 0)
  else ({ t with reserved := t.reserved + t.free, free := 0 }, requestedSize - t.free)

/-- Release reserved memory of a table; what is left to release. -/
def MemoryTable.release (t : MemoryTable) (releasedSize : UInt64) : MemoryTable × UInt64 :=
  if t.reserved = 0 then (t, releasedSize)
  else if t.reserved < releasedSize then
    ({ t with free := t.free + t.reserved, reserved := 0 }, releasedSize - t.reserved)
  else ({ t with free := t.free + releasedSize, reserved := t.reserved - releasedSize }, 0)

/-- A loop over nodes that hands an amount from one node to the next. -/
def walk (missing : Failure)
    (body : Int → NUMANodeState → UInt64 → Except Failure (NUMANodeState × UInt64)) :
    List Int → NUMANodeMap → UInt64 → Except Failure NUMANodeMap
  | [], machineState, _ => .ok machineState
  | nodeID :: nodes, machineState, amount =>
    match machineState.lookup nodeID with
    | none => .error missing
    | some nodeState => do
      let (nodeState, amount) ← body nodeID nodeState amount
      walk missing body nodes (machineState.insert nodeID nodeState) amount

variable (b : Block)

/-- One node of the innermost loop of `Allocate`. -/
def allocateNode (_nodeID : Int) (nodeState : NUMANodeState) (requestedSize : UInt64) :
    Except Failure (NUMANodeState × UInt64) :=
  let nodeState :=
    { nodeState with
      numberOfAssignments := nodeState.numberOfAssignments + 1, cells := b.numaAffinity }
  if requestedSize = 0 then .ok (nodeState, requestedSize)
  else do
    let table ← deref (nodeState.memoryMap.lookup b.type)
    let (table, requestedSize) := table.take requestedSize
    return ({ nodeState with memoryMap := nodeState.memoryMap.insert b.type table }, requestedSize)

def allocateBlock : Except Failure NUMANodeMap :=
  walk .panic (allocateNode b) b.numaAffinity machineState b.size

/-- One node of the inner loop of `RemoveContainer`. -/
def releaseNode (nodeID : Int) (nodeState : NUMANodeState) (releasedSize : UInt64) :
    Except Failure (NUMANodeState × UInt64) :=
  let numberOfAssignments := nodeState.numberOfAssignments - 1
  let cells := if numberOfAssignments = 0 then [nodeID] else nodeState.cells
  let nodeState := { nodeState with numberOfAssignments, cells }
  if releasedSize = 0 then .ok (nodeState, releasedSize)
  else do
    let table ← deref (nodeState.memoryMap.lookup b.type)
    let (table, releasedSize) := table.release releasedSize
    return ({ nodeState with memoryMap := nodeState.memoryMap.insert b.type table }, releasedSize)

def releaseBlock : Except Failure NUMANodeMap :=
  walk .panic (releaseNode b) b.numaAffinity machineState b.size

/-- The hint that `Allocate` starts from: that of the topology manager or the default one. -/
def startHint (hint : TopologyHint) : Except Failure Hint :=
  match hint.affinity with
  | some mask => .ok ⟨mask, hint.preferred⟩
  | none => do
    let defaultHint ← getDefaultHint machineState requestedResources
    if !(defaultHint.elim false (·.preferred)) && hint.preferred then
      throw (.error "[memorymanager] failed to find the default preferred hint")
    deref defaultHint

/-- The hint that `Allocate` uses. -/
def bestHint (hint : TopologyHint) : Except Failure Hint := do
  let best ← startHint machineState requestedResources hint
  if ← isAffinitySatisfyRequest machineState best.mask requestedResources then return best
  let extendedHint ← extendTopologyManagerHint machineState requestedResources best.mask
  if !(extendedHint.elim false (·.preferred)) && best.preferred then
    throw (.error "[memorymanager] failed to find the extended preferred hint")
  deref extendedHint

/-- The blocks of a container, in the order of the range over the requested resources. -/
def containerBlocks (order : IterOrder ResourceName) (maskBits : List Int) : List Block :=
  (order.order requestedResources.keys).map fun resourceName =>
    ⟨maskBits, resourceName, (requestedResources.lookup resourceName).getD 0⟩

def allocate (pod : Pod) (container : Container) (hint : TopologyHint)
    (order : IterOrder ResourceName) : Except Failure StateMemory :=
  if getPodQOS pod ≠ .guaranteed then .ok s
  else match s.getMemoryBlocks pod.uid container.name with
    | some _ => .ok s
    | none => do
      let requestedResources ← getRequestedResources container
      let best ← bestHint s.machineState requestedResources hint
      let blocks := containerBlocks requestedResources order best.mask.getBits
      let machineState ← blocks.foldlM allocateBlock s.machineState
      return (s.setMachineState machineState).setMemoryBlocks pod.uid container.name blocks

def removeContainer (podUID containerName : String) : Except Failure StateMemory :=
  match s.getMemoryBlocks podUID containerName with
  | none => .ok s
  | some blocks => do
    let machineState ← blocks.foldlM releaseBlock s.machineState
    return (s.delete podUID containerName).setMachineState machineState

/-! ## Restarts -/

variable (pod containerName : String)

/-- One node of the innermost loop of `validateState`. -/
def validateNode (b : Block) (_nodeID : Int)
    (nodeState : NUMANodeState) (requestedSize : UInt64) :
    Except Failure (NUMANodeState × UInt64) :=
  let nodeState :=
    { nodeState with
      numberOfAssignments := nodeState.numberOfAssignments + 1, cells := b.numaAffinity }
  match nodeState.memoryMap.lookup b.type with
  | none => .error (.error s!"[memorymanager] (pod: {pod}, container: {containerName}) the memory assignment uses memory resource that does not exist")
  | some table =>
    if requestedSize = 0 then .ok (nodeState, requestedSize)
    else
      let (table, requestedSize) := table.take requestedSize
      .ok ({ nodeState with memoryMap := nodeState.memoryMap.insert b.type table }, requestedSize)

def validateBlock (machineState : NUMANodeMap) (b : Block) : Except Failure NUMANodeMap :=
  walk (.error s!"[memorymanager] (pod: {pod}, container: {containerName}) the memory assignment uses the NUMA that does not exist")
    (validateNode pod containerName b) b.numaAffinity machineState b.size

def areNodeStatesEqual (nodeState1 nodeState2 : NUMANodeState) : Bool :=
  nodeState1.numberOfAssignments = nodeState2.numberOfAssignments &&
    areGroupsEqual nodeState1.cells nodeState2.cells &&
    nodeState1.memoryMap.keys.length = nodeState2.memoryMap.keys.length &&
    nodeState1.memoryMap.entries.all fun e => nodeState2.memoryMap.lookup e.1 = some e.2

def areMachineStatesEqual (ms1 ms2 : NUMANodeMap) : Bool :=
  ms1.keys.length = ms2.keys.length &&
    ms1.entries.all fun e => (ms2.lookup e.1).elim false (areNodeStatesEqual e.2)

/-- The orders of the ranges over pods and over the containers of a pod. -/
structure RangeOrder where
  pods : IterOrder String
  containers : String → IterOrder String

/-- `validateState`, with the state that it leaves. -/
def validateState (order : RangeOrder) (s : StateMemory) : Except Failure StateMemory :=
  if s.machineState.keys = [] then
    if s.assignments.keys ≠ [] then
      .error (.error "[memorymanager] machine state can not be empty when it has memory assignments")
    else .ok (s.setMachineState (getDefaultMachineState p))
  else do
    let expectedMachineState ←
      (NestedMap.inOrder s.assignments order.pods order.containers).foldlM
        (fun machineState e => e.2.2.foldlM (validateBlock e.1 e.2.1) machineState)
        (getDefaultMachineState p)
    if areMachineStatesEqual s.machineState expectedMachineState then return s
    throw (.error "[memorymanager] the expected machine state is different from the real one")

/-! ## Runs -/

inductive Call where
  | allocate (pod : Pod) (container : Container) (hint : TopologyHint)
      (order : IterOrder ResourceName)
  | removeContainer (podUID containerName : String)

/-- The state after the first start on a machine. -/
def start : StateMemory := StateMemory.new.setMachineState (getDefaultMachineState p)

/-- An error leaves the state as it is. -/
def complete : Except Failure StateMemory → Option StateMemory
  | .ok s' => some s'
  | .error (.error _) => some s
  | .error .panic => none

def manager : Machine StateMemory Call where
  init := start p
  step s
    | .allocate pod container hint order => complete s (allocate s pod container hint order)
    | .removeContainer podUID containerName => complete s (removeContainer s podUID containerName)

end Kubernetes.Kubelet.MemoryManager
