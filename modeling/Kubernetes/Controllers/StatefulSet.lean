import Kubernetes.Decimal
import Kubernetes.EarlyReturn

/-! # One update of a stateful set

A model of `updateStatefulSet` of `pkg/controller/statefulset/stateful_set_control.go`, and of what
it uses of `stateful_set_utils.go`.

The pods of a set are told apart by their ordinals, which are read from their names. The update
first goes through the ordinals below the number of replicas, from the lowest one on: it replaces
failed pods and creates missing ones. Then it deletes pods with larger ordinals, from the highest
one on, and last those that are not at the update revision. With ordered management it returns
after the first change, and as soon as it meets a pod that it must wait for.

What requests return is given by their number. `ApplyRevision`, which patches the set, is a
parameter; events and logs are left out.
-/

namespace Kubernetes.Controllers.StatefulSetControl

open Decimal

/-! ## Pods and sets -/

/-- `PodPhase`; a pod that the API server does not know has none. -/
inductive PodPhase where
  | empty
  | pending
  | running
  | succeeded
  | failed
  | unknown
deriving DecidableEq

/-- A volume, with the claim it uses if it is one of a claim. -/
structure Volume where
  name : Str
  claimName : Option Str
deriving DecidableEq

/-- `v1.Pod`: `ready` is its ready condition, `revision` and `podName` are the labels that the
controller reads, empty if they are missing. -/
structure Pod where
  name : Str
  nspace : Str
  phase : PodPhase
  ready : Bool
  deletionTimestamp : Option ℤ
  revision : Str
  podName : Str
  volumes : List Volume
deriving DecidableEq

inductive PodManagementPolicy where
  | orderedReady
  | parallel
deriving DecidableEq

inductive UpdateStrategyType where
  | rollingUpdate
  | onDelete
  | other
deriving DecidableEq

/-- `apps.StatefulSet`: the partition of the rolling update if there is one, the number of current
replicas of the status, the volumes of the template and the names of the claim templates. -/
structure StatefulSet where
  name : Str
  nspace : Str
  generation : ℤ
  deletionTimestamp : Option ℤ
  replicas : ℕ
  podManagementPolicy : PodManagementPolicy
  updateStrategy : UpdateStrategyType
  partition : Option ℤ
  currentReplicas : ℤ
  templateVolumes : List Volume
  volumeClaimTemplates : List Str
  replicas_lt : replicas < 2 ^ 31

variable (pod : Pod)

/-- `getParentNameAndOrdinal`: the longest part before a dash and digits at the end, which starts
after the last line break. -/
def getParentNameAndOrdinal : Str × ℤ :=
  let digits := (pod.name.reverse.takeWhile Char.isDigit).reverse
  match digits, pod.name.reverse.dropWhile Char.isDigit with
  | _ :: _, '-' :: parent =>
    ((parent.takeWhile (· ≠ '\n')).reverse, if ofDigits digits < 2 ^ 31 then ofDigits digits else -1)
  | _, _ => ([], -1)

def getOrdinal : ℤ := (getParentNameAndOrdinal pod).2

variable (set : StatefulSet)

def getPodName (ordinal : ℕ) : Str := set.name ++ '-' :: itoa ordinal

def getPersistentVolumeClaimName (claim : Str) (ordinal : ℕ) : Str :=
  claim ++ '-' :: set.name ++ '-' :: itoa ordinal

def identityMatches (pod : Pod) : Bool :=
  let ordinal := (getParentNameAndOrdinal pod).2
  decide (0 ≤ ordinal) && decide (set.name = (getParentNameAndOrdinal pod).1) &&
    decide (pod.name = getPodName set ordinal.toNat) && decide (pod.nspace = set.nspace) &&
    decide (pod.podName = pod.name)

/-- `storageMatches`: of several volumes with a name the last one counts. -/
def storageMatches (pod : Pod) : Bool :=
  decide (0 ≤ getOrdinal pod) &&
    set.volumeClaimTemplates.all fun claim =>
      match pod.volumes.reverse.find? (·.name = claim) with
      | none => false
      | some volume =>
        volume.claimName = some (getPersistentVolumeClaimName set claim (getOrdinal pod).toNat)

def isRunningAndReady : Bool := decide (pod.phase = .running) && pod.ready

def isCreated : Bool := decide (pod.phase ≠ .empty)

def isFailed : Bool := decide (pod.phase = .failed)

def isTerminating : Bool := pod.deletionTimestamp.isSome

def isHealthy : Bool := isRunningAndReady pod && !isTerminating pod

def allowsBurst : Bool := decide (set.podManagementPolicy = .parallel)

/-- `newStatefulSetPod`: the claims, and the volumes of the template that are not theirs. -/
def newStatefulSetPod (ordinal : ℕ) : Pod where
  name := getPodName set ordinal
  nspace := set.nspace
  phase := .empty
  ready := false
  deletionTimestamp := none
  revision := []
  podName := getPodName set ordinal
  volumes :=
    set.volumeClaimTemplates.map (fun claim =>
      ⟨claim, some (getPersistentVolumeClaimName set claim ordinal)⟩) ++
    set.templateVolumes.filter fun volume => volume.name ∉ set.volumeClaimTemplates

/-- An ordinal whose new pod is at the current revision. -/
def keepsRevision (currentSet : StatefulSet) (ordinal : ℕ) : Bool :=
  match currentSet.partition with
  | none => decide (currentSet.updateStrategy = .rollingUpdate) &&
      decide ((ordinal : ℤ) < currentSet.currentReplicas)
  | some partition => decide ((ordinal : ℤ) < partition)

def newVersionedStatefulSetPod (currentSet updateSet : StatefulSet)
    (currentRevision updateRevision : Str) (ordinal : ℕ) : Pod :=
  if keepsRevision currentSet ordinal then
    { newStatefulSetPod currentSet ordinal with revision := currentRevision }
  else { newStatefulSetPod updateSet ordinal with revision := updateRevision }

/-! ## Status and requests -/

/-- `StatefulSetStatus`. -/
structure Status where
  observedGeneration : ℤ
  currentRevision : Str
  updateRevision : Str
  collisionCount : ℤ
  replicas : ℤ
  readyReplicas : ℤ
  currentReplicas : ℤ
  updatedReplicas : ℤ

/-- The requests for pods. -/
inductive Request where
  | create (pod : Pod)
  | update (pod : Pod)
  | delete (pod : Pod)
deriving DecidableEq

/-- Where the update is: its status so far, and its requests. -/
structure Progress where
  status : Status
  requests : List Request

inductive UpdateError where
  | revision
  | request
  | indexOutOfRange
deriving DecidableEq

/-- What an update returns, with the requests it has made. -/
structure Outcome where
  status : Option Status
  err : Option UpdateError
  requests : List Request

/-- The update returns. -/
def Progress.done (p : Progress) (err : Option UpdateError) : Outcome :=
  ⟨some p.status, err, p.requests⟩

/-- What the update is given: the set, its sets and names at two revisions, and which requests
fail. -/
structure Env where
  set : StatefulSet
  currentSet : StatefulSet
  updateSet : StatefulSet
  currentRevision : Str
  updateRevision : Str
  collisionCount : ℤ
  fails : ℕ → Bool

section

variable (env : Env)

/-- A request: it returns if the request fails. -/
def request (p : Progress) (r : Request) : Except Outcome Progress :=
  let p' : Progress := { p with requests := p.requests ++ [r] }
  if env.fails p.requests.length then .error (p'.done (some .request)) else .ok p'

/-- The numbers of current and updated replicas change by those of a pod. -/
def Status.count (s : Status) (pod : Pod) (n : ℤ) : Status :=
  { s with
    currentReplicas :=
      if pod.revision = env.currentRevision then s.currentReplicas + n else s.currentReplicas
    updatedReplicas :=
      if pod.revision = env.updateRevision then s.updatedReplicas + n else s.updatedReplicas }

/-- A pod that is to be created for an ordinal. -/
def placeholder (ordinal : ℕ) : Pod :=
  newVersionedStatefulSetPod env.currentSet env.updateSet env.currentRevision env.updateRevision
    ordinal

/-! ## The lists -/

/-- One round of the first loop over pods, for the status. -/
def countPod (s : Status) (pod : Pod) : Status :=
  let s := { s with replicas := s.replicas + 1 }
  let s := if isRunningAndReady pod then { s with readyReplicas := s.readyReplicas + 1 } else s
  if isCreated pod && !isTerminating pod then s.count env pod 1 else s

variable (pods : List Pod)

/-- The status after the first loop. -/
def initialStatus : Status :=
  pods.foldl (countPod env)
    ⟨env.set.generation, env.currentRevision, env.updateRevision, env.collisionCount, 0, 0, 0, 0⟩

/-- One round of the first loop over pods, for the replicas. -/
def placePod (slots : List (Option Pod)) (pod : Pod) : List (Option Pod) :=
  if 0 ≤ getOrdinal pod ∧ getOrdinal pod < env.set.replicas then
    slots.set (getOrdinal pod).toNat (some pod)
  else slots

/-- The replicas that there are, by ordinal. -/
def slots : List (Option Pod) :=
  pods.foldl (placePod env) (List.replicate env.set.replicas none)

/-- The replicas, with new pods where there are none, each with its ordinal. -/
def replicas : List (ℕ × Pod) :=
  (slots env pods).zipIdx.map fun (slot, ordinal) => (ordinal, slot.getD (placeholder env ordinal))

/-- The pods whose ordinal is too large, in ascending order. -/
def condemned : List Pod :=
  (pods.filter fun pod => decide ((env.set.replicas : ℤ) ≤ getOrdinal pod)).insertionSort
    fun a b => getOrdinal a ≤ getOrdinal b

/-- Where a pod is: among the replicas, or among the condemned pods. -/
inductive Place where
  | replica (i : ℕ)
  | condemned (i : ℕ)
deriving DecidableEq

/-- The place of the first unhealthy pod. -/
def firstUnhealthyPod : Option Place :=
  match (replicas env pods).findIdx? fun r => !isHealthy r.2 with
  | some i => some (.replica i)
  | none => ((condemned env pods).findIdx? fun pod => !isHealthy pod).map .condemned

/-! ## The loops -/

variable (p : Progress)

/-- A failed replica is deleted, and replaced by a pod to create. -/
def replaceFailed (i : ℕ) (pod : Pod) : Except Outcome (Progress × Pod) :=
  if isFailed pod then do
    let p ← request env p (.delete pod)
    let status := p.status.count env pod (-1)
    .ok ({ p with status := { status with replicas := status.replicas - 1 } }, placeholder env i)
  else .ok (p, pod)

/-- One round of the loop over replicas after that. The loop is left with the replicas it has
seen. -/
def examineReplica (seen : List (ℕ × Pod)) (i : ℕ) (replica : Progress × Pod) :
    Except Outcome (Progress × List (ℕ × Pod)) :=
  let monotonic := !allowsBurst env.set
  let (p, pod) := replica
  if !isCreated pod then do
    let p ← request env p (.create pod)
    let status := { p.status with replicas := p.status.replicas + 1 }
    let p := { p with status := status.count env pod 1 }
    if monotonic then .error (p.done none) else .ok (p, seen ++ [(i, pod)])
  else if isTerminating pod && monotonic then .error (p.done none)
  else if !isRunningAndReady pod && monotonic then .error (p.done none)
  else if identityMatches env.set pod && storageMatches env.set pod then
    .ok (p, seen ++ [(i, pod)])
  else do
    let p ← request env p (.update pod)
    .ok (p, seen ++ [(i, pod)])

/-- One round of the loop over replicas. -/
def replicaRound (state : Progress × List (ℕ × Pod)) (replica : ℕ × Pod) :
    Except Outcome (Progress × List (ℕ × Pod)) :=
  replaceFailed env state.1 replica.1 replica.2 >>= examineReplica env state.2 replica.1

/-- One round of the loop over condemned pods. -/
def condemnedRound (firstUnhealthy : Option Place) (p : Progress) (target : ℕ × Pod) :
    Except Outcome Progress :=
  let monotonic := !allowsBurst env.set
  let (i, pod) := target
  if isTerminating pod then if monotonic then .error (p.done none) else .ok p
  else if !isRunningAndReady pod && monotonic && decide (firstUnhealthy ≠ some (.condemned i)) then
    .error (p.done none)
  else do
    let p ← request env p (.delete pod)
    let p := { p with status := p.status.count env pod (-1) }
    if monotonic then .error (p.done none) else .ok p

/-- One round of the loop that updates replicas. Whether its request fails or not, the pod is no
longer counted. -/
def updateRound (target : ℕ × Pod) : Except Outcome Progress :=
  let pod := target.2
  if pod.revision ≠ env.updateRevision ∧ !isTerminating pod then do
    let status := { p.status with currentReplicas := p.status.currentReplicas - 1 }
    let p ← request env { p with status := status } (.delete pod)
    .error (p.done none)
  else if !isHealthy pod then .error (p.done none)
  else .ok p

/-- The replicas that may be updated, from the last one on. -/
def updateTargets (replicas : List (ℕ × Pod)) : List (ℕ × Pod) :=
  (replicas.filter fun replica => decide (env.set.partition.getD 0 ≤ replica.1)).reverse

/-- The end of the update, after the condemned pods. -/
def updateReplicas (replicas : List (ℕ × Pod)) (p : Progress) : Except Outcome Progress :=
  if env.set.updateStrategy = .onDelete then .ok p
  else do
    let p ← (updateTargets env replicas).foldlM (updateRound env) p
    -- a negative partition leads below the first replica
    if env.set.partition.getD 0 < 0 then .error (p.done (some .indexOutOfRange)) else .ok p

/-- The condemned pods with their places, from the last one on. -/
def condemnedTargets : List (ℕ × Pod) :=
  ((condemned env pods).zipIdx.map fun (pod, i) => (i, pod)).reverse

/-- The loops, for a set that is not being deleted. -/
def updatePods : Except Outcome Progress := do
  let (p, replicas) ← (replicas env pods).foldlM (replicaRound env) (p, [])
  let p ← (condemnedTargets env pods).foldlM (condemnedRound env (firstUnhealthyPod env pods)) p
  updateReplicas env replicas p

/-- The update, with the sets at both revisions. -/
def updateWith : Outcome :=
  let p : Progress := ⟨initialStatus env pods, []⟩
  if env.set.deletionTimestamp.isSome then p.done none
  else
    match updatePods env pods p with
    | .error r => r
    | .ok p => p.done none

end

def updateStatefulSet (applyRevision : StatefulSet → Str → Option StatefulSet) (set : StatefulSet)
    (currentRevision updateRevision : Str) (collisionCount : ℤ) (fails : ℕ → Bool)
    (pods : List Pod) : Outcome :=
  match applyRevision set currentRevision, applyRevision set updateRevision with
  | some currentSet, some updateSet =>
    updateWith ⟨set, currentSet, updateSet, currentRevision, updateRevision, collisionCount, fails⟩
      pods
  | _, _ => ⟨none, some .revision, []⟩

end Kubernetes.Controllers.StatefulSetControl
