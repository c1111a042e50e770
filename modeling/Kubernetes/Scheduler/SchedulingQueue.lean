import Kubernetes.KeyedHeap

/-! # The scheduling queue

The pods that wait to be scheduled are in three sub-queues: `activeQ`, a heap in the
order of scheduling; `podBackoffQ`, a heap in the order of the ends of the backoffs; and
`unschedulableQ`, a map. The heaps and the map find a pod by different keys, both made of
its namespace and name.

Every call takes the readings of the clock that it makes, in order, and the order of
every range over a map. Metrics, logging, the condition variable and the nominator are
left out: no call on the queue reads them.
-/

namespace Kubernetes.Scheduler.SchedulingQueue

/-! ## Pods -/

/-- A namespace and a name. Validation excludes the delimiters of the two keys: a name is
a DNS subdomain and a namespace is a DNS label. -/
structure ObjectName where
  ns : String
  name : String
  ns_slash : '/' ∉ ns.toList
  name_slash : '/' ∉ name.toList
  name_underscore : '_' ∉ name.toList
deriving DecidableEq

/-- `MetaNamespaceKeyFunc`, the key in the heaps. -/
def metaNamespaceKey (id : ObjectName) : String :=
  if id.ns ≠ "" then id.ns ++ "/" ++ id.name else id.name

/-- `GetPodFullName`, the key in `unschedulableQ`. -/
def getPodFullName (id : ObjectName) : String := id.name ++ "_" ++ id.ns

structure PodStatus where
  nominatedNodeName : String := ""
deriving DecidableEq

/-- A pod; `spec` is all that the queue does not look into. -/
structure Pod (Spec : Type) where
  id : ObjectName
  uid : String
  resourceVersion : String := ""
  generation : Int := 0
  status : PodStatus := {}
  spec : Spec
deriving DecidableEq

variable {Spec Term : Type}

def Pod.strip (pod : Pod Spec) : Pod Spec :=
  { pod with resourceVersion := "", generation := 0, status := {} }

/-- Whether an update may have made the pod schedulable. -/
def isPodUpdated [DecidableEq Spec] (oldPod newPod : Pod Spec) : Bool := oldPod.strip ≠ newPod.strip

structure PodInfo (Spec Term : Type) where
  pod : Pod Spec
  requiredAffinityTerms : List Term

structure QueuedPodInfo (Spec Term : Type) where
  podInfo : PodInfo Spec Term
  timestamp : Int
  attempts : Nat
  initialAttemptTimestamp : Int
  unschedulablePlugins : Finset String

variable (pInfo : QueuedPodInfo Spec Term)

/-- The namespace and name of a queued pod. -/
def QueuedPodInfo.id : ObjectName := pInfo.podInfo.pod.id

def podInfoKeyFunc : String := metaNamespaceKey pInfo.id

/-! ## Events -/

inductive GVK where
  | pod | node | persistentVolume | persistentVolumeClaim | service | storageClass | csiNode
  | wildCard
deriving DecidableEq

/-- A resource and a bit set of actions. -/
structure ClusterEvent where
  resource : GVK
  actionType : Nat
deriving DecidableEq

namespace ActionType

def add : Nat := 1
def delete : Nat := 2
def updateNodeAllocatable : Nat := 4
def updateNodeLabel : Nat := 8
def updateNodeTaint : Nat := 16
def updateNodeCondition : Nat := 32
def all : Nat := 63
def update : Nat :=
  updateNodeAllocatable ||| updateNodeLabel ||| updateNodeTaint ||| updateNodeCondition

end ActionType

def wildCardEvent : ClusterEvent := ⟨.wildCard, ActionType.all⟩

/-- The events that trigger the queue to change. -/
inductive Event where
  | podAdd | nodeAdd | scheduleAttemptFailure | backoffComplete | unschedulableTimeout
  | assignedPodAdd | assignedPodUpdate | assignedPodDelete | pvAdd | pvUpdate | pvcAdd | pvcUpdate
  | storageClassAdd | serviceAdd | serviceUpdate | serviceDelete | csiNodeAdd | csiNodeUpdate
  | nodeSpecUnschedulableChange | nodeAllocatableChange | nodeLabelChange | nodeTaintChange
  | nodeConditionChange
deriving DecidableEq

def clusterEventReg : Event → Option ClusterEvent
  | .assignedPodAdd => some ⟨.pod, ActionType.add⟩
  | .assignedPodUpdate => some ⟨.pod, ActionType.update⟩
  | .assignedPodDelete => some ⟨.pod, ActionType.delete⟩
  | .nodeAdd => some ⟨.node, ActionType.add⟩
  | .nodeSpecUnschedulableChange => some ⟨.node, ActionType.updateNodeTaint⟩
  | .nodeAllocatableChange => some ⟨.node, ActionType.updateNodeAllocatable⟩
  | .nodeLabelChange => some ⟨.node, ActionType.updateNodeLabel⟩
  | .nodeTaintChange => some ⟨.node, ActionType.updateNodeTaint⟩
  | .nodeConditionChange => some ⟨.node, ActionType.updateNodeCondition⟩
  | .pvAdd => some ⟨.persistentVolume, ActionType.add⟩
  | .pvUpdate => some ⟨.persistentVolume, ActionType.update⟩
  | .pvcAdd => some ⟨.persistentVolumeClaim, ActionType.add⟩
  | .pvcUpdate => some ⟨.persistentVolumeClaim, ActionType.update⟩
  | .storageClassAdd => some ⟨.storageClass, ActionType.add⟩
  | .csiNodeAdd => some ⟨.csiNode, ActionType.add⟩
  | .csiNodeUpdate => some ⟨.csiNode, ActionType.update⟩
  | .serviceAdd => some ⟨.service, ActionType.add⟩
  | .serviceUpdate => some ⟨.service, ActionType.update⟩
  | .serviceDelete => some ⟨.service, ActionType.delete⟩
  | .unschedulableTimeout => some wildCardEvent
  | .podAdd | .scheduleAttemptFailure | .backoffComplete => none

/-! ## The queue -/

structure Config (Spec Term : Type) where
  podInitialBackoffDuration : Int
  podMaxBackoffDuration : Int
  lessFn : QueuedPodInfo Spec Term → QueuedPodInfo Spec Term → Bool
  clusterEventMap : GoMap ClusterEvent (Finset String)
  /-- `getAffinityTerms` of the required affinity terms of a pod -/
  affinityTerms : Pod Spec → List Term

/-- `UnschedulablePodsMap`: every pod under its own key. -/
structure UnschedulablePodsMap (Spec Term : Type) where
  podInfoMap : GoMap String (QueuedPodInfo Spec Term)
  keyed : ∀ k pInfo, podInfoMap.lookup k = some pInfo → getPodFullName pInfo.id = k

namespace UnschedulablePodsMap

def empty : UnschedulablePodsMap Spec Term := ⟨∅, fun k pInfo h => by simp at h⟩

variable (u : UnschedulablePodsMap Spec Term)

def get (id : ObjectName) : Option (QueuedPodInfo Spec Term) :=
  u.podInfoMap.lookup (getPodFullName id)

def addOrUpdate (pInfo : QueuedPodInfo Spec Term) : UnschedulablePodsMap Spec Term where
  podInfoMap := u.podInfoMap.insert (getPodFullName pInfo.id) pInfo
  keyed k p hl := by
    rw [GoMap.lookup_insert_if] at hl
    split_ifs at hl with hk
    · cases hl
      exact hk.symm
    · exact u.keyed k p hl

def delete (id : ObjectName) : UnschedulablePodsMap Spec Term where
  podInfoMap := u.podInfoMap.erase (getPodFullName id)
  keyed k p hl := by
    rw [GoMap.lookup_erase_if] at hl
    split_ifs at hl
    exact u.keyed k p hl

/-- The pods in the order of a range over the map. -/
def inOrder (iter : IterOrder String) : List (QueuedPodInfo Spec Term) :=
  (iter.order u.podInfoMap.keys).filterMap u.podInfoMap.lookup

end UnschedulablePodsMap

structure PriorityQueue (Spec Term : Type) where
  activeQ : KeyedHeap (@podInfoKeyFunc Spec Term)
  podBackoffQ : KeyedHeap (@podInfoKeyFunc Spec Term)
  unschedulableQ : UnschedulablePodsMap Spec Term
  schedulingCycle : Int
  moveRequestCycle : Int

inductive QueueError where
  /-- "Pod is already present in unschedulable queue" -/
  | inUnschedulableQueue
  /-- "Pod is already present in the active queue" -/
  | inActiveQueue
  /-- "Pod is already present in the backoff queue" -/
  | inBackoffQueue
deriving DecidableEq

namespace PriorityQueue

/-- `NewPriorityQueue` -/
def new : PriorityQueue Spec Term := ⟨.empty, .empty, .empty, 0, -1⟩

variable (cfg : Config Spec Term)

/-! ### Backoff -/

/-- The loop of `calculateBackoffDuration`, with the number of rounds left. -/
def backoffLoop : Nat → Int → Int
  | 0, duration => duration
  | rounds + 1, duration =>
    if duration * 2 > cfg.podMaxBackoffDuration then cfg.podMaxBackoffDuration
    else backoffLoop rounds (duration * 2)

variable (pInfo : QueuedPodInfo Spec Term)

def calculateBackoffDuration : Int :=
  backoffLoop cfg (pInfo.attempts - 1) cfg.podInitialBackoffDuration

def getBackoffTime : Int :=
  pInfo.timestamp + calculateBackoffDuration cfg pInfo

def isPodBackingoff (now : Int) : Bool :=
  getBackoffTime cfg pInfo > now

def podsCompareBackoffCompleted (a b : QueuedPodInfo Spec Term) : Bool :=
  getBackoffTime cfg a < getBackoffTime cfg b

/-! ### Pods in and out of the sub-queues -/

def newQueuedPodInfo (pod : Pod Spec) (now : Int) : QueuedPodInfo Spec Term where
  podInfo := ⟨pod, cfg.affinityTerms pod⟩
  timestamp := now
  attempts := 0
  initialAttemptTimestamp := now
  unschedulablePlugins := ∅

/-- `PodInfo.Update`: the affinity terms are kept for the same pod. -/
def updatePod (newPod : Pod Spec) : QueuedPodInfo Spec Term :=
  { pInfo with
    podInfo :=
      if pInfo.podInfo.pod.uid = newPod.uid then { pInfo.podInfo with pod := newPod }
      else ⟨newPod, cfg.affinityTerms newPod⟩ }

variable (q : PriorityQueue Spec Term)

/-- `p.activeQ.Add` -/
def addActive (pInfo : QueuedPodInfo Spec Term) : PriorityQueue Spec Term :=
  { q with activeQ := q.activeQ.add cfg.lessFn pInfo }

/-- `p.podBackoffQ.Add` -/
def addBackoff (pInfo : QueuedPodInfo Spec Term) : PriorityQueue Spec Term :=
  { q with podBackoffQ := q.podBackoffQ.add (podsCompareBackoffCompleted cfg) pInfo }

/-- `p.podBackoffQ.Delete`, whose error is ignored. -/
def deleteBackoff (id : ObjectName) : PriorityQueue Spec Term :=
  match q.podBackoffQ.delete (podsCompareBackoffCompleted cfg) (metaNamespaceKey id) with
  | some podBackoffQ => { q with podBackoffQ := podBackoffQ }
  | none => q

/-- `p.unschedulableQ.delete` -/
def deleteUnschedulable (id : ObjectName) : PriorityQueue Spec Term :=
  { q with unschedulableQ := q.unschedulableQ.delete id }

/-! ### Calls -/

def add (pod : Pod Spec) (now : Int) : PriorityQueue Spec Term :=
  let q := q.addActive cfg (newQueuedPodInfo cfg pod now)
  let q := if (q.unschedulableQ.get pod.id).isSome then q.deleteUnschedulable pod.id else q
  q.deleteBackoff cfg pod.id

def addUnschedulableIfNotPresent (pInfo : QueuedPodInfo Spec Term)
    (podSchedulingCycle : Int) (now : Int) : PriorityQueue Spec Term × Option QueueError :=
  if (q.unschedulableQ.get pInfo.id).isSome then (q, some .inUnschedulableQueue)
  else if (q.activeQ.get (podInfoKeyFunc pInfo)).isSome then (q, some .inActiveQueue)
  else if (q.podBackoffQ.get (podInfoKeyFunc pInfo)).isSome then (q, some .inBackoffQueue)
  else
    let pInfo := { pInfo with timestamp := now }
    if q.moveRequestCycle ≥ podSchedulingCycle then (q.addBackoff cfg pInfo, none)
    else ({ q with unschedulableQ := q.unschedulableQ.addOrUpdate pInfo }, none)

/-- The loop of `flushBackoffQCompleted`; `clock` gives the readings of the rounds. -/
def flushLoop : Nat → (Nat → Int) → PriorityQueue Spec Term → PriorityQueue Spec Term
  | 0, _, q => q
  | fuel + 1, clock, q =>
    match q.podBackoffQ.peek with
    | none => q
    | some rawPodInfo =>
      if getBackoffTime cfg rawPodInfo > clock 0 then q
      else
        match q.podBackoffQ.pop (podsCompareBackoffCompleted cfg) with
        | none => q
        | some (_, podBackoffQ) =>
          flushLoop fuel (fun n => clock (n + 1))
            ({ q with podBackoffQ := podBackoffQ }.addActive cfg rawPodInfo)

/-- `flushBackoffQCompleted`: each round takes one pod out of the backoff queue, so its
length bounds the rounds. -/
def flushBackoffQCompleted (clock : Nat → Int) : PriorityQueue Spec Term :=
  flushLoop cfg q.podBackoffQ.len clock q

def podMatchesEvent (event : Event) : Bool :=
  match clusterEventReg event with
  | none => false
  | some clusterEvent =>
    if clusterEvent = wildCardEvent then true
    else cfg.clusterEventMap.entries.any fun ⟨evt, nameSet⟩ =>
      (evt = wildCardEvent ∨
        (evt.resource = clusterEvent.resource ∧ evt.actionType &&& clusterEvent.actionType ≠ 0)) ∧
      nameSet ∩ pInfo.unschedulablePlugins ≠ ∅

/-- The body of the loop of `movePodsToActiveOrBackoffQueue`. -/
def movePod (event : Event) (q : PriorityQueue Spec Term) (pInfo : QueuedPodInfo Spec Term)
    (now : Int) : PriorityQueue Spec Term :=
  if pInfo.unschedulablePlugins ≠ ∅ ∧ podMatchesEvent cfg pInfo event = false then q
  else if isPodBackingoff cfg pInfo now then
    (q.addBackoff cfg pInfo).deleteUnschedulable pInfo.id
  else (q.addActive cfg pInfo).deleteUnschedulable pInfo.id

def moveLoop (event : Event) :
    List (QueuedPodInfo Spec Term) → (Nat → Int) → PriorityQueue Spec Term →
      PriorityQueue Spec Term
  | [], _, q => q
  | pInfo :: rest, clock, q =>
    moveLoop event rest (fun n => clock (n + 1)) (q.movePod cfg event pInfo (clock 0))

def movePodsToActiveOrBackoffQueue
    (podInfoList : List (QueuedPodInfo Spec Term)) (event : Event) (clock : Nat → Int) :
    PriorityQueue Spec Term :=
  let q := moveLoop cfg event podInfoList clock q
  { q with moveRequestCycle := q.schedulingCycle }

def moveAllToActiveOrBackoffQueue (event : Event)
    (iter : IterOrder String) (clock : Nat → Int) : PriorityQueue Spec Term :=
  q.movePodsToActiveOrBackoffQueue cfg (q.unschedulableQ.inOrder iter) event clock

/-- 60 seconds, in nanoseconds. -/
def unschedulableQTimeInterval : Int := 60 * 1000000000

def flushUnschedulableQLeftover (iter : IterOrder String)
    (clock : Nat → Int) : PriorityQueue Spec Term :=
  let podsToMove := (q.unschedulableQ.inOrder iter).filter fun pInfo =>
    clock 0 - pInfo.timestamp > unschedulableQTimeInterval
  if podsToMove.length > 0 then
    q.movePodsToActiveOrBackoffQueue cfg podsToMove .unschedulableTimeout fun n => clock (n + 1)
  else q

/-- `Pop`; `none` where the code waits for a pod. -/
def pop : Option (QueuedPodInfo Spec Term × PriorityQueue Spec Term) :=
  (q.activeQ.pop cfg.lessFn).map fun res =>
    ({ res.1 with attempts := res.1.attempts + 1 },
      { q with activeQ := res.2, schedulingCycle := q.schedulingCycle + 1 })

def update [DecidableEq Spec] (q : PriorityQueue Spec Term) (oldPod newPod : Pod Spec)
    (now : Int) : PriorityQueue Spec Term :=
  match q.activeQ.get (metaNamespaceKey oldPod.id) with
  | some oldPodInfo => q.addActive cfg (updatePod cfg oldPodInfo newPod)
  | none =>
    match q.podBackoffQ.get (metaNamespaceKey oldPod.id) with
    | some oldPodInfo => q.addBackoff cfg (updatePod cfg oldPodInfo newPod)
    | none =>
      match q.unschedulableQ.get newPod.id with
      | some usPodInfo =>
        let pInfo := updatePod cfg usPodInfo newPod
        if isPodUpdated oldPod newPod then
          if isPodBackingoff cfg pInfo now then
            (q.addBackoff cfg pInfo).deleteUnschedulable pInfo.id
          else (q.addActive cfg pInfo).deleteUnschedulable pInfo.id
        else { q with unschedulableQ := q.unschedulableQ.addOrUpdate pInfo }
      | none => q.addActive cfg (newQueuedPodInfo cfg newPod now)

def delete (pod : Pod Spec) : PriorityQueue Spec Term :=
  match q.activeQ.delete cfg.lessFn (metaNamespaceKey pod.id) with
  | some activeQ => { q with activeQ := activeQ }
  | none => (q.deleteBackoff cfg pod.id).deleteUnschedulable pod.id

variable (matching : Term → Bool) (iter : IterOrder String)

/-- The unschedulable pods with a required affinity term that matches; `matching` is
`term.Matches` for the assigned pod. -/
def getUnschedulablePodsWithMatchingAffinityTerm : List (QueuedPodInfo Spec Term) :=
  (q.unschedulableQ.inOrder iter).filter fun pInfo =>
    pInfo.podInfo.requiredAffinityTerms.any matching

def assignedPodAdded (clock : Nat → Int) : PriorityQueue Spec Term :=
  q.movePodsToActiveOrBackoffQueue cfg
    (q.getUnschedulablePodsWithMatchingAffinityTerm matching iter) .assignedPodAdd clock

def assignedPodUpdated (clock : Nat → Int) : PriorityQueue Spec Term :=
  q.movePodsToActiveOrBackoffQueue cfg
    (q.getUnschedulablePodsWithMatchingAffinityTerm matching iter) .assignedPodUpdate clock

end PriorityQueue

/-! ## Calls -/

/-- One call, with the clock readings and the iteration order it uses. -/
inductive Op (Spec Term : Type) where
  | add (pod : Pod Spec) (now : Int)
  | addUnschedulableIfNotPresent (pInfo : QueuedPodInfo Spec Term) (podSchedulingCycle : Int)
      (now : Int)
  | pop
  | update (oldPod newPod : Pod Spec) (now : Int)
  | delete (pod : Pod Spec)
  | moveAllToActiveOrBackoffQueue (event : Event) (iter : IterOrder String) (clock : Nat → Int)
  | assignedPodAdded (matching : Term → Bool) (iter : IterOrder String) (clock : Nat → Int)
  | assignedPodUpdated (matching : Term → Bool) (iter : IterOrder String) (clock : Nat → Int)
  | flushBackoffQCompleted (clock : Nat → Int)
  | flushUnschedulableQLeftover (iter : IterOrder String) (clock : Nat → Int)

inductive Result (Spec Term : Type) where
  | done
  | popped (pInfo : QueuedPodInfo Spec Term)
  | failed (err : QueueError)

namespace PriorityQueue

variable (cfg : Config Spec Term)

/-- The queue and the result after a call; `none` if the call waits. -/
def exec [DecidableEq Spec] (q : PriorityQueue Spec Term) :
    Op Spec Term → Option (PriorityQueue Spec Term × Result Spec Term)
  | .add pod now => some (q.add cfg pod now, .done)
  | .addUnschedulableIfNotPresent pInfo cycle now =>
    match q.addUnschedulableIfNotPresent cfg pInfo cycle now with
    | (q, none) => some (q, .done)
    | (q, some err) => some (q, .failed err)
  | .pop => (q.pop cfg).map fun res => (res.2, .popped res.1)
  | .update oldPod newPod now => some (q.update cfg oldPod newPod now, .done)
  | .delete pod => some (q.delete cfg pod, .done)
  | .moveAllToActiveOrBackoffQueue event iter clock =>
    some (q.moveAllToActiveOrBackoffQueue cfg event iter clock, .done)
  | .assignedPodAdded matching iter clock =>
    some (q.assignedPodAdded cfg matching iter clock, .done)
  | .assignedPodUpdated matching iter clock =>
    some (q.assignedPodUpdated cfg matching iter clock, .done)
  | .flushBackoffQCompleted clock => some (q.flushBackoffQCompleted cfg clock, .done)
  | .flushUnschedulableQLeftover iter clock =>
    some (q.flushUnschedulableQLeftover cfg iter clock, .done)

end PriorityQueue

end Kubernetes.Scheduler.SchedulingQueue
