import Kubernetes.Decimal

/-! # One sync of the job controller

A model of `syncJob` and `manageJob` of `pkg/controller/job/job_controller.go`, and of
`indexed_job_utils.go`.

The pods of an Indexed job carry their completion index in an annotation, as text that anybody
with access to the pods can write. The sync counts the indexes with a succeeded pod, in runs over
the pods sorted by index; deletes active pods that are too many, have the index of another one or
have none; and creates pods for the first indexes that no succeeded or active pod has.

What the sync finds outside, the clock, the feature gates and the results of its requests, is an
`Env`. Expectations enter as `jobNeedsSync`; how they are counted is left out, like events.
-/

namespace Kubernetes.Controllers.JobController

open Decimal

/-! ## Pods and jobs -/

inductive PodPhase where
  | pending
  | running
  | succeeded
  | failed
  | unknown
deriving DecidableEq

/-- `v1.Pod`: `completionIndex` is the value of the annotation, and the restart counts are those
of the init containers and of the containers. -/
structure Pod where
  name : String
  completionIndex : Option (List Char)
  phase : PodPhase
  deletionTimestamp : Option ℤ
  initRestartCounts : List ℤ
  restartCounts : List ℤ
deriving DecidableEq

inductive CompletionMode where
  | nonIndexed
  | indexed
  | other
deriving DecidableEq

inductive RestartPolicy where
  | always
  | onFailure
  | never
deriving DecidableEq

inductive ConditionType where
  | complete
  | failed
  | suspended
deriving DecidableEq

inductive ConditionStatus where
  | isTrue
  | isFalse
  | unknown
deriving DecidableEq

/-- `batch.JobCondition`, without its times. -/
structure Condition where
  type : ConditionType
  status : ConditionStatus
  reason : String
  message : String
deriving DecidableEq

/-- `batch.JobStatus`. -/
structure Status where
  active : ℤ
  succeeded : ℤ
  failed : ℤ
  startTime : Option ℤ
  completionTime : Option ℤ
  conditions : List Condition
  completedIndexes : List Char

/-- `batch.Job`, as validated. -/
structure Job where
  completionMode : Option CompletionMode
  completions : Option ℤ
  parallelism : ℤ
  backoffLimit : ℤ
  activeDeadlineSeconds : Option ℤ
  suspend : Option Bool
  restartPolicy : RestartPolicy
  deletionTimestamp : Option ℤ
  status : Status
  completions_range : ∀ n ∈ completions, 0 ≤ n ∧ n < 2 ^ 31
  parallelism_range : 0 ≤ parallelism ∧ parallelism < 2 ^ 31

inductive DeleteResult where
  | deleted
  | notFound
  | failed
deriving DecidableEq

inductive CreateResult where
  | created
  | namespaceTerminating
  | failed
deriving DecidableEq

def unknownCompletionIndex : ℤ := -1

def getCompletionIndex (p : Pod) : ℤ :=
  match p.completionIndex.bind atoi with
  | none => unknownCompletionIndex
  | some i => if i < 0 then unknownCompletionIndex else i

/-- What a sync finds outside. The sorts are those of `sort.Sort`, which leaves the order of pods
open that compare as equal; `ActivePods` decides which pods to delete first. -/
structure Env where
  indexedJobEnabled : Bool
  suspendJobEnabled : Bool
  /-- The clock, at its reading with a given number. -/
  clock : ℕ → ℤ
  jobNeedsSync : Bool
  sortByCompletionIndex : List Pod → List Pod
  sortByCompletionIndex_perm : ∀ pods, (sortByCompletionIndex pods).Perm pods
  sortByCompletionIndex_sorted : ∀ pods, (sortByCompletionIndex pods).Pairwise
    fun p q => getCompletionIndex p ≤ getCompletionIndex q
  sortActivePods : List Pod → List Pod
  sortActivePods_perm : ∀ pods, (sortActivePods pods).Perm pods
  /-- The result of the request with a given number. -/
  deletePod : ℕ → DeleteResult
  createPod : ℕ → CreateResult
  updateFails : Bool

def isPodActive (p : Pod) : Bool :=
  p.phase ≠ .succeeded && p.phase ≠ .failed && p.deletionTimestamp = none

variable (pods : List Pod)

def filterActivePods : List Pod := pods.filter isPodActive

variable (job : Job)

def Job.isIndexedJob : Bool := job.completionMode = some .indexed

def isJobFinished (conditions : List Condition) : Bool :=
  conditions.any fun c => (c.type = .complete || c.type = .failed) && c.status = .isTrue

variable (env : Env) (job : Job) (pods : List Pod)

def jobSuspended : Bool :=
  env.suspendJobEnabled && job.suspend = some true

/-! ## Completion indexes -/

def strconvItoa (n : ℤ) : List Char := if n < 0 then '-' :: itoa n.natAbs else itoa n.toNat

def addSingleOrRangeStr (builder : List Char) (first last : ℤ) : List Char :=
  let builder := if builder = [] then builder else builder ++ [',']
  let builder := builder ++ strconvItoa first
  if first < last then
    let builder := if last = int64 (first + 1) then builder ++ [','] else builder ++ ['-']
    builder ++ strconvItoa last
  else builder

/-- `math.MinInt32`, which stands for no index. -/
def minInt32 : ℤ := -2 ^ 31

/-- The variables of `calculateSucceededIndexes`. -/
structure Scan where
  result : List Char
  firstSucceeded : ℤ
  lastSucceeded : ℤ
  count : ℤ

namespace Scan

def start : Scan := ⟨[], minInt32, 0, 0⟩

variable (s : Scan)

/-- The run from `firstSucceeded` to `lastSucceeded` ends. -/
def endRun : Scan :=
  { s with
    result := addSingleOrRangeStr s.result s.firstSucceeded s.lastSucceeded
    count := int32 (s.count + int32 (int64 (int64 (s.lastSucceeded - s.firstSucceeded) + 1))) }

/-- The loop body for a succeeded pod with an index. -/
def next (ix : ℤ) : Scan :=
  if s.firstSucceeded = minInt32 then { s with firstSucceeded := ix, lastSucceeded := ix }
  else if int64 (s.lastSucceeded + 1) < ix then
    { s.endRun with firstSucceeded := ix, lastSucceeded := ix }
  else { s with lastSucceeded := ix }

def step (p : Pod) : Scan :=
  let ix := getCompletionIndex p
  if ix = unknownCompletionIndex then s
  else if p.phase = .succeeded then s.next ix
  else s

def finish : Scan := if s.firstSucceeded = minInt32 then s else s.endRun

end Scan

/-- `calculateSucceededIndexes`: the indexes as text, and their number. -/
def calculateSucceededIndexes : List Char × ℤ :=
  let s := ((env.sortByCompletionIndex pods).foldl Scan.step Scan.start).finish
  (s.result, s.count)

/-- The indexes from `candidate` on that are less than `bound`, as long as there is room. -/
def appendCandidates (bound : ℤ) : ℕ → ℤ → List ℤ → List ℤ
  | 0, _, result => result
  | room + 1, candidate, result =>
    if candidate < bound then appendCandidates bound room (candidate + 1) (result ++ [candidate])
    else result

/-- The loops of `firstPendingIndexes`: over the indexes that are not pending, and after them. -/
def pendingLoop (count : ℕ) (completions : ℤ) : List ℤ → ℤ → List ℤ → List ℤ
  | [], candidate, result =>
    appendCandidates completions (count - result.length) candidate result
  | np :: rest, candidate, result =>
    let result :=
      appendCandidates (min np completions) (count - result.length) candidate result
    if result.length = count then result
    else pendingLoop count completions rest (int64 (np + 1)) result

/-- The indexes of succeeded and active pods, sorted. -/
def nonPending : List ℤ :=
  (((pods.filter fun p => p.phase = .succeeded || isPodActive p).map getCompletionIndex).filter
    (· ≠ unknownCompletionIndex)).dedup.insertionSort (· ≤ ·)

def firstPendingIndexes (count : ℕ) (completions : ℤ) : List ℤ :=
  if count = 0 then [] else pendingLoop count completions (nonPending pods) 0 []

/-! ## Deleting and creating pods -/

/-- Pods to remove, and pods that are left. -/
structure Removal where
  rm : List Pod
  left : List Pod

/-- `appendPodsWithSameIndexForRemovalAndRemaining`. -/
def appendPodsWithSameIndex (r : Removal) (pods : List Pod) (ix : ℤ) : Removal :=
  if ix = unknownCompletionIndex then { r with rm := r.rm ++ pods }
  else if pods.length = 1 then { r with left := r.left ++ pods }
  else
    let pods := env.sortActivePods pods
    { rm := r.rm ++ pods.dropLast, left := r.left ++ pods.getLast?.toList }

/-- The loop of `appendDuplicatedIndexPodsForRemoval`; `group` are the pods since
`firstRepeatPos`. -/
def removalLoop (env : Env) : List Pod → ℤ → List Pod → Removal → Removal
  | [], lastIndex, group, r => appendPodsWithSameIndex env r group lastIndex
  | p :: rest, lastIndex, group, r =>
    let ix := getCompletionIndex p
    if ix ≠ lastIndex then
      removalLoop env rest ix [p] (appendPodsWithSameIndex env r group lastIndex)
    else removalLoop env rest lastIndex (group ++ [p]) r

def appendDuplicatedIndexPodsForRemoval : Removal :=
  removalLoop env (env.sortByCompletionIndex pods) unknownCompletionIndex [] ⟨[], []⟩

def activePodsForRemoval (rmAtLeast : ℕ) : List Pod :=
  let r := if job.isIndexedJob then appendDuplicatedIndexPodsForRemoval env pods else ⟨[], pods⟩
  if r.rm.length < rmAtLeast then
    r.rm ++ (env.sortActivePods r.left).take (rmAtLeast - r.rm.length)
  else r.rm

/-- `deleteJobPods`: the number of removals, and whether a request failed. -/
def deleteJobPods : ℤ × Bool :=
  let failures := ((List.range pods.length).filter fun n => env.deletePod n = .failed).length
  (int32 (int32 pods.length - failures), decide (0 < failures))

/-- What the loop of `manageJob` that creates pods did: the completion indexes of the pods, how
many requests failed, and how many pods were skipped. -/
structure Creation where
  indexes : List ℤ
  failures : ℕ
  skipped : ℕ

/-- The loop of `manageJob` that creates pods, in batches of doubling size. -/
def createPods (env : Env) : ℕ → ℕ → ℕ → Option (List ℤ) → ℕ → Creation
  | 0, _, _, _, _ => ⟨[], 0, 0⟩
  | fuel + 1, diff, batchSize, indexesToAdd, requests =>
    if diff = 0 then ⟨[], 0, 0⟩
    else
      let batch := match indexesToAdd with
        | some indexes => indexes.take batchSize
        | none => List.replicate batchSize unknownCompletionIndex
      let failures := ((List.range batchSize).filter fun n =>
        env.createPod (requests + n) = .failed).length
      let skippedPods := diff - batchSize
      if 0 < failures ∧ 0 < skippedPods then ⟨batch, failures, skippedPods⟩
      else
        let later := createPods env fuel skippedPods (min (2 * batchSize) skippedPods)
          (indexesToAdd.map (·.drop batchSize)) (requests + batchSize)
        ⟨batch ++ later.indexes, failures + later.failures, later.skipped⟩

/-- What `manageJob` returns, with the pods that it asked to delete and to create. -/
structure Managed where
  active : ℤ
  err : Bool
  deleted : List Pod
  created : List ℤ

/-- How many pods `manageJob` wants to be active. -/
def wantActive (active succeeded : ℤ) : ℤ :=
  match job.completions with
  | none => if 0 < succeeded then active else job.parallelism
  | some completions => min (int32 (completions - succeeded)) job.parallelism

/-- The second half of `manageJob`, which creates pods. -/
def fillUp (active succeeded : ℤ) (allPods deleted : List Pod) : Managed :=
  if active < job.parallelism then
    let diff := (int32 (wantActive job active succeeded - active)).toNat
    if diff = 0 then ⟨active, false, deleted, []⟩
    else
      let indexesToAdd := match job.completions with
        | some completions =>
          if job.isIndexedJob then some (firstPendingIndexes allPods diff completions) else none
        | none => none
      let diff := match indexesToAdd with
        | some indexes => indexes.length
        | none => diff
      -- slow start, with one pod in the first batch
      let creation := createPods env diff diff (min diff 1) indexesToAdd 0
      ⟨int32 (active + diff - creation.failures - creation.skipped),
        decide (0 < creation.failures), deleted, creation.indexes⟩
  else ⟨active, false, deleted, []⟩

def manageJob (activePods : List Pod) (succeeded : ℤ) (allPods : List Pod) : Managed :=
  let active := int32 activePods.length
  if jobSuspended env job then
    let podsToDelete := activePodsForRemoval env job activePods active.toNat
    let (removed, err) := deleteJobPods env podsToDelete
    ⟨int32 (active - removed), err, podsToDelete, []⟩
  else
    let rmAtLeast := (int32 (active - job.parallelism)).toNat
    let podsToDelete := activePodsForRemoval env job activePods rmAtLeast
    if podsToDelete = [] then fillUp env job active succeeded allPods []
    else
      let (removed, err) := deleteJobPods env podsToDelete
      if err then ⟨int32 (active - removed), true, podsToDelete, []⟩
      else fillUp env job (int32 (active - removed)) succeeded allPods podsToDelete

/-! ## The sync -/

/-- `countPodsByPhase`, as `getStatus` converts it. -/
def countPodsByPhase (phase : PodPhase) : ℤ :=
  int32 (pods.filter fun p => phase = p.phase &&
    (!job.isIndexedJob || getCompletionIndex p ≠ unknownCompletionIndex)).length

def pastBackoffLimitOnFailure : Bool :=
  if job.restartPolicy ≠ .onFailure then false
  else
    let counts := (pods.filter fun p => p.phase = .running || p.phase = .pending).flatMap fun p =>
      p.initRestartCounts ++ p.restartCounts
    let result := counts.foldl (fun total count => int32 (total + count)) 0
    if job.backoffLimit = 0 then 0 < result else job.backoffLimit ≤ result

/-- The start time in the status of the sync: the clock's, if the job starts now. -/
def startTime : Option ℤ :=
  if job.status.startTime = none ∧ jobSuspended env job = false then some (env.clock 0)
  else job.status.startTime

/-- The difference of two times, which is limited to the range of a duration. -/
def timeSub (t u : ℤ) : ℤ := max (-2 ^ 63) (min (2 ^ 63 - 1) (t - u))

/-- `pastActiveDeadline`; durations are in nanoseconds. -/
def pastActiveDeadline : Bool :=
  match job.activeDeadlineSeconds, startTime env job with
  | some seconds, some start =>
    !jobSuspended env job &&
      decide (int64 (seconds * 10 ^ 9) ≤ timeSub (env.clock 1) start)
  | _, _ => false

/-- Whether there are failed pods that the status does not count yet. -/
def jobHaveNewFailure : Bool :=
  job.status.failed < countPodsByPhase job pods .failed

/-- The reason and the message if the sync fails the job. -/
def failure : Option (String × String) :=
  let failed := countPodsByPhase job pods .failed
  let active := int32 (filterActivePods pods).length
  let exceedsBackoffLimit := jobHaveNewFailure job pods && active ≠ job.parallelism &&
    decide (job.backoffLimit < failed)
  if exceedsBackoffLimit || pastBackoffLimitOnFailure job pods then
    some ("BackoffLimitExceeded", "Job has reached the specified backoff limit")
  else if pastActiveDeadline env job then
    some ("DeadlineExceeded", "Job was active longer than specified deadline")
  else none

/-- `ensureJobConditionStatus`: the conditions, and whether they were changed. -/
def ensureJobConditionStatus (c : Condition) : List Condition → List Condition × Bool
  | [] => if c.status ≠ .isFalse then ([c], true) else ([], false)
  | d :: rest =>
    if d.type = c.type then
      if d = c then (d :: rest, false) else (c :: rest, true)
    else
      let (rest, changed) := ensureJobConditionStatus c rest
      (d :: rest, changed)

/-- What a sync did: whether the key is forgotten, whether it returned an error, the status that
it wrote, and the pods that it asked to delete and to create. -/
structure Outcome where
  forget : Bool
  err : Bool
  update : Option Status
  deleted : List Pod
  created : List ℤ

/-- The end of `syncJob`: the status is written if it has changed. -/
def writeStatus (status : Status)
    (jobConditionsChanged err : Bool) (deleted : List Pod) (created : List ℤ) : Outcome :=
  let forget := decide (job.status.succeeded < status.succeeded)
  if job.status.active ≠ status.active ∨ job.status.succeeded ≠ status.succeeded ∨
      job.status.failed ≠ status.failed ∨ jobConditionsChanged then
    if env.updateFails then ⟨forget, true, some status, deleted, created⟩
    else if jobHaveNewFailure job pods && !isJobFinished status.conditions then
      ⟨forget, true, some status, deleted, created⟩
    else ⟨true, err, some status, deleted, created⟩
  else ⟨forget, err, none, deleted, created⟩

/-- Whether the sync completes a job that has not failed. -/
def isComplete (active succeeded : ℤ) : Bool :=
  match job.completions with
  | none => decide (0 < succeeded) && active = 0
  | some completions => decide (completions ≤ succeeded)

/-- The conditions after a call of `manageJob` that leaves the job incomplete. -/
def suspendConditions (called : Bool) : List Condition × Bool :=
  if env.suspendJobEnabled && called then
    if job.suspend = some true then
      ensureJobConditionStatus ⟨.suspended, .isTrue, "JobSuspended", "Job suspended"⟩
        job.status.conditions
    else
      ensureJobConditionStatus ⟨.suspended, .isFalse, "JobResumed", "Job resumed"⟩
        job.status.conditions
  else (job.status.conditions, false)

/-- The number of succeeded pods or, for an Indexed job, of succeeded indexes. -/
def countSucceeded : ℤ :=
  if job.isIndexedJob then (calculateSucceededIndexes env pods).2
  else countPodsByPhase job pods .succeeded

/-- The status of the sync, but for what depends on whether the job fails or completes. -/
def baseStatus (active : ℤ) : Status :=
  { job.status with
    active := active
    succeeded := countSucceeded env job pods
    failed := countPodsByPhase job pods .failed
    startTime := startTime env job
    completedIndexes := if job.isIndexedJob then (calculateSucceededIndexes env pods).1
      else job.status.completedIndexes }

/-- The branch of `syncJob` for a job that fails: its active pods are deleted. -/
def failJob (reason message : String) : Outcome :=
  let activePods := filterActivePods pods
  let status :=
    { baseStatus env job pods 0 with
      failed := int32 (countPodsByPhase job pods .failed + int32 activePods.length)
      conditions := job.status.conditions ++ [⟨.failed, .isTrue, reason, message⟩] }
  writeStatus env job pods status true (deleteJobPods env activePods).2 activePods []

/-- Whether the sync calls `manageJob`. -/
def callsManageJob : Bool :=
  env.jobNeedsSync && job.deletionTimestamp = none

/-- What `manageJob` does, if it is called. -/
def managed : Managed :=
  let activePods := filterActivePods pods
  if callsManageJob env job then
    manageJob env job activePods (countSucceeded env job pods) pods
  else ⟨int32 activePods.length, false, [], []⟩

/-- The status of a job that has not failed. -/
def progressStatus : Status :=
  let status := baseStatus env job pods (managed env job pods).active
  if isComplete job (managed env job pods).active (countSucceeded env job pods) then
    { status with
      conditions := job.status.conditions ++ [⟨.complete, .isTrue, "", ""⟩]
      completionTime := some (env.clock 2) }
  else
    let suspended := suspendConditions env job (callsManageJob env job)
    { status with
      conditions := suspended.1
      startTime := if suspended.2 && decide (job.suspend ≠ some true) then some (env.clock 3)
        else status.startTime }

/-- The other branch of `syncJob`. -/
def progressJob : Outcome :=
  let jobConditionsChanged :=
    isComplete job (managed env job pods).active (countSucceeded env job pods) ||
      (suspendConditions env job (callsManageJob env job)).2
  writeStatus env job pods (progressStatus env job pods) jobConditionsChanged
    (managed env job pods).err (managed env job pods).deleted (managed env job pods).created

/-- `syncJob` after the pods were found, with what fails the job. -/
def syncPods : Option (String × String) → Outcome
  | some (reason, message) => failJob env job pods reason message
  | none => progressJob env job pods

/-- `syncJob` after the job was found; its pods may not be found. -/
def syncJob (listed : Option (List Pod)) : Outcome :=
  if isJobFinished job.status.conditions then ⟨true, false, none, [], []⟩
  else if !env.indexedJobEnabled && job.isIndexedJob then ⟨false, false, none, [], []⟩
  else if job.completionMode = some .other then ⟨false, false, none, [], []⟩
  else
    match listed with
    | none => ⟨false, true, none, [], []⟩
    | some pods => syncPods env job pods (failure env job pods)

end Kubernetes.Controllers.JobController
