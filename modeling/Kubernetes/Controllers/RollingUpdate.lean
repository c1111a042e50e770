import Kubernetes.Decimal

/-! # Scaling the replica sets of a deployment

A model of `pkg/controller/deployment/rolling.go` and of what it uses of
`util/deployment_util.go`. A rolling update scales the new replica set up as far as `maxSurge`
allows, and the old ones down as far as `maxUnavailable` allows: first the replicas that are not
available, then the available ones.

The controller works on what the informers report. Between two of its steps the reported
availability may change in any way, and may be larger than the size of the replica set, while
the pods of an earlier, larger size are still there. An update of a replica set may fail; then
the step ends.

`rolling_respects_maxSurge`: no step brings the total size above `replicas + maxSurge`, or makes a
size negative, or an old replica set larger.

Sizes are integers, computed with as `int32`; a size or a number of available replicas that is
stored was validated not to be negative.
-/

namespace Kubernetes.Controllers

open Int List

open Decimal (int32 int32_of_bounds int32_bounds)

/-! ## Deployments and replica sets -/

/-- `apps.ReplicaSet`: `Spec.Replicas` and `Status.AvailableReplicas`. -/
structure ReplicaSet where
  name : String
  creationTimestamp : ℤ
  replicas : ℤ
  availableReplicas : ℕ
deriving DecidableEq

/-- `ReplicaSetsByCreationTimestamp.Less`. -/
def ReplicaSet.less (a b : ReplicaSet) : Bool :=
  if a.creationTimestamp = b.creationTimestamp then a.name < b.name
  else a.creationTimestamp < b.creationTimestamp

variable (rss : List ReplicaSet)

/-- `sort.Sort(ReplicaSetsByCreationTimestamp(rss))`. No two replica sets of a namespace have the
same name, so that there is one order. -/
def sortByCreationTimestamp : List ReplicaSet :=
  rss.insertionSort fun a b => (!b.less a) = true

/-- `intstr.IntOrString`, with the string parsed: a percentage, or neither. -/
inductive IntOrString where
  | int (value : ℤ)
  | percent (value : ℤ)
  | invalid

def getScaledValueFromIntOrPercent (intOrPercent : Option IntOrString) (total : ℤ)
    (roundUp : Bool) : Option ℤ :=
  match intOrPercent with
  | some (.int value) => some value
  | some (.percent value) =>
    some (if roundUp then -(-(value * total) / 100) else value * total / 100)
  | some .invalid => none
  | none => none

inductive StrategyType where
  | rollingUpdate
  | recreate
deriving DecidableEq

/-- `apps.Deployment`, as far as a rolling update uses it. -/
structure Deployment where
  replicas : ℤ
  strategy : StrategyType
  maxSurge : Option IntOrString
  maxUnavailable : Option IntOrString
  /-- Checked by the validation of deployments. -/
  replicas_nonneg : 0 ≤ replicas
  replicas_lt : replicas < 2 ^ 31

def resolveFenceposts (maxSurge maxUnavailable : Option IntOrString) (desired : ℤ) :
    Option (ℤ × ℤ) := do
  let surge ← getScaledValueFromIntOrPercent (some (maxSurge.getD (.int 0))) desired true
  let unavailable ←
    getScaledValueFromIntOrPercent (some (maxUnavailable.getD (.int 0))) desired false
  let unavailable := if surge = 0 ∧ unavailable = 0 then 1 else unavailable
  some (int32 surge, int32 unavailable)

variable (d : Deployment)

namespace Deployment

/-- `MaxUnavailable`. -/
def maxUnavailablePods : ℤ :=
  if d.strategy ≠ .rollingUpdate ∨ d.replicas = 0 then 0
  else
    let maxUnavailable := ((resolveFenceposts d.maxSurge d.maxUnavailable d.replicas).getD (0, 0)).2
    if d.replicas < maxUnavailable then d.replicas else maxUnavailable

/-- The number of pods that have to be available, as the rolling update computes it. -/
def minAvailable : ℤ := int32 (d.replicas - d.maxUnavailablePods)

def surge : ℤ :=
  (getScaledValueFromIntOrPercent d.maxSurge d.replicas true).getD 0

end Deployment

def getReplicaCountForReplicaSets : ℤ :=
  rss.foldl (fun total rs => int32 (total + rs.replicas)) 0

def getAvailableReplicaCountForReplicaSets : ℤ :=
  rss.foldl (fun total rs => int32 (total + rs.availableReplicas)) 0

def filterActiveReplicaSets : List ReplicaSet :=
  rss.filter fun rs => decide (0 < rs.replicas)

def newRSNewReplicas (allRSs : List ReplicaSet) (newRS : ReplicaSet) : Option ℤ :=
  match d.strategy with
  | .rollingUpdate => do
    let maxSurge ← getScaledValueFromIntOrPercent d.maxSurge d.replicas true
    let currentPodCount := getReplicaCountForReplicaSets allRSs
    let maxTotalPods := int32 (d.replicas + int32 maxSurge)
    if maxTotalPods ≤ currentPodCount then some newRS.replicas
    else
      let scaleUpCount := int32 (maxTotalPods - currentPodCount)
      let scaleUpCount := int32 (min scaleUpCount (int32 (d.replicas - newRS.replicas)))
      some (int32 (newRS.replicas + scaleUpCount))
  | .recreate => some d.replicas

/-- `scaleReplicaSetAndRecordEvent`: whether the size was changed, and the replica set. There is no
update if it has the size already; otherwise the update may fail. -/
def scaleReplicaSetAndRecordEvent (fails : Bool) (rs : ReplicaSet) (newScale : ℤ) :
    Option (Bool × ReplicaSet) :=
  if rs.replicas = newScale then some (false, rs)
  else if fails then none
  else some (true, { rs with replicas := newScale })

/-- `reconcileNewReplicaSet`: the new replica set, and whether it was scaled. -/
def reconcileNewReplicaSet (allRSs : List ReplicaSet) (newRS : ReplicaSet)
    (fails : Bool) : Option (Bool × ReplicaSet) :=
  if newRS.replicas = d.replicas then some (false, newRS)
  else if d.replicas < newRS.replicas then scaleReplicaSetAndRecordEvent fails newRS d.replicas
  else do
    let newReplicasCount ← newRSNewReplicas d allRSs newRS
    scaleReplicaSetAndRecordEvent fails newRS newReplicasCount

/-! ## Scaling down -/

/-- How a loop over the old replica sets ends: the replica sets, by how many replicas they were
scaled down, how many updates were tried, and whether it returned an error. -/
structure ScaledDown where
  rss : List ReplicaSet
  total : ℤ
  calls : ℕ
  err : Bool

def ScaledDown.cons (rs : ReplicaSet) (r : ScaledDown) : ScaledDown := { r with rss := rs :: r.rss }

/-- The loops of `cleanupUnhealthyReplicas` and `scaleDownOldReplicaSetsForRollingUpdate`. They
differ in how many replicas of a replica set they may remove, `cap`. The update with number `n`
fails if `fails n`. -/
def scaleDownLoop (fails : ℕ → Bool) (cap : ReplicaSet → ℤ) (budget : ℤ) :
    List ReplicaSet → ℤ → ℕ → ScaledDown
  | [], total, calls => ⟨[], total, calls, false⟩
  | rs :: rest, total, calls =>
    if budget ≤ total then ⟨rs :: rest, total, calls, false⟩
    else if rs.replicas = 0 ∨ cap rs = 0 then
      (scaleDownLoop fails cap budget rest total calls).cons rs
    else
      let scaledDownCount := int32 (min (int32 (budget - total)) (cap rs))
      let newReplicasCount := int32 (rs.replicas - scaledDownCount)
      -- the request to scale down would scale up
      if rs.replicas < newReplicasCount then ⟨rs :: rest, 0, calls, true⟩
      else
        match scaleReplicaSetAndRecordEvent (fails calls) rs newReplicasCount with
        | none => ⟨rs :: rest, total, calls + 1, true⟩
        | some (_, updated) =>
          (scaleDownLoop fails cap budget rest (int32 (total + scaledDownCount))
            (calls + 1)).cons updated

/-- The replicas of a replica set that are not available. -/
def unhealthy (rs : ReplicaSet) : ℤ := int32 (rs.replicas - rs.availableReplicas)

variable (fails : ℕ → Bool)

def cleanupUnhealthyReplicas (oldRSs : List ReplicaSet) (maxCleanupCount : ℤ) : ScaledDown :=
  scaleDownLoop fails unhealthy maxCleanupCount (sortByCreationTimestamp oldRSs) 0 0

def scaleDownOldReplicaSetsForRollingUpdate
    (allRSs oldRSs : List ReplicaSet) (calls : ℕ) : ScaledDown :=
  let availablePodCount := getAvailableReplicaCountForReplicaSets allRSs
  if availablePodCount ≤ d.minAvailable then ⟨oldRSs, 0, calls, false⟩
  else
    scaleDownLoop fails ReplicaSet.replicas (int32 (availablePodCount - d.minAvailable))
      (sortByCreationTimestamp oldRSs) 0 calls

/-- `reconcileOldReplicaSets`: the old replica sets, and whether one was scaled. The errors of the
loops are not passed on. -/
def reconcileOldReplicaSets (allRSs oldRSs : List ReplicaSet)
    (newRS : ReplicaSet) : List ReplicaSet × Bool :=
  if getReplicaCountForReplicaSets oldRSs = 0 then (oldRSs, false)
  else
    let allPodsCount := getReplicaCountForReplicaSets allRSs
    let newRSUnavailablePodCount := int32 (newRS.replicas - newRS.availableReplicas)
    let maxScaledDown := int32 (int32 (allPodsCount - d.minAvailable) - newRSUnavailablePodCount)
    if maxScaledDown ≤ 0 then (oldRSs, false)
    else
      let cleaned := cleanupUnhealthyReplicas fails oldRSs maxScaledDown
      if cleaned.err then (cleaned.rss, false)
      else
        let scaled := scaleDownOldReplicaSetsForRollingUpdate d fails (cleaned.rss ++ [newRS])
          cleaned.rss cleaned.calls
        if scaled.err then (scaled.rss, false)
        else (scaled.rss, decide (0 < int32 (cleaned.total + scaled.total)))

/-! ## Rolling updates -/

/-- The replica sets of a deployment. The order of the old ones has no meaning. -/
structure Rollout where
  newRS : ReplicaSet
  oldRSs : List ReplicaSet

namespace Rollout

variable (s : Rollout)

def allRSs : List ReplicaSet := s.oldRSs ++ [s.newRS]

/-- The old replica sets that the rolling update looks at, and the others. -/
def active : List ReplicaSet := filterActiveReplicaSets s.oldRSs

def inactive : List ReplicaSet :=
  s.oldRSs.filter fun rs => !decide (0 < rs.replicas)

/-- `reconcileOldReplicaSets` as `rolloutRolling` calls it. -/
def reconcileOld (s : Rollout) (fails : ℕ → Bool) : Rollout :=
  { s with
    oldRSs := (reconcileOldReplicaSets d fails s.allRSs s.active s.newRS).1 ++ s.inactive }

/-- `reconcileNewReplicaSet` as `rolloutRolling` calls it; an error leaves everything as it is. -/
def reconcileNew (s : Rollout) (fails : Bool) : Rollout :=
  match reconcileNewReplicaSet d s.allRSs s.newRS fails with
  | none => s
  | some (_, newRS) => { s with newRS := newRS }

/-- The informers report the availability anew. -/
def report (available : String → ℕ) : Rollout :=
  let refresh := fun rs : ReplicaSet => { rs with availableReplicas := available rs.name }
  ⟨refresh s.newRS, s.oldRSs.map refresh⟩

end Rollout

inductive RolloutLabel where
  | reconcileNew (fails : Bool)
  | reconcileOld (fails : ℕ → Bool)
  | report (available : String → ℕ)

/-- Rolling syncs of a deployment, from given replica sets. -/
def rolling (start : Rollout) : Machine Rollout RolloutLabel where
  init := start
  step s
    | .reconcileNew fails => some (s.reconcileNew d fails)
    | .reconcileOld fails => some (s.reconcileOld d fails)
    | .report available => some (s.report available)

/-! ## Without overflow -/

/-- The sum of the sizes. -/
def specTotal : ℤ := (rss.map ReplicaSet.replicas).sum

/-- The sum of the numbers of available replicas. -/
def availableTotal : ℤ :=
  (rss.map fun rs => (rs.availableReplicas : ℤ)).sum

/-- Sizes are not negative. -/
def Sized : Prop := ∀ rs ∈ rss, 0 ≤ rs.replicas

instance (rss : List ReplicaSet) : Decidable (Sized rss) :=
  inferInstanceAs (Decidable (∀ rs ∈ rss, 0 ≤ rs.replicas))

/-- No `int32` sum overflows, as far as sizes are computed from it. -/
structure NoOverflow (d : Deployment) (s : Rollout) : Prop where
  spec : specTotal s.allRSs < 2 ^ 31
  available : availableTotal s.allRSs < 2 ^ 31
  surge : -2 ^ 31 ≤ d.surge ∧ d.surge < 2 ^ 31
  maxTotal : -2 ^ 31 ≤ d.replicas + d.surge ∧ d.replicas + d.surge < 2 ^ 31

variable {rs : ReplicaSet} {rss}

lemma foldl_int32 (f : ReplicaSet → ℤ) (hf : ∀ rs ∈ rss, 0 ≤ f rs) {total : ℤ}
    (ht : 0 ≤ total) (hsum : total + (rss.map f).sum < 2 ^ 31) :
    rss.foldl (fun total rs => int32 (total + f rs)) total = total + (rss.map f).sum := by
  induction rss generalizing total with
  | nil => simp
  | cons rs rss ih =>
    rw [map_cons, sum_cons] at hsum ⊢
    have hrs := hf rs mem_cons_self
    have hrest : ∀ rs ∈ rss, 0 ≤ f rs := (forall_mem_cons.1 hf).2
    have hpos : 0 ≤ (rss.map f).sum := by
      apply sum_nonneg
      intro x hx
      rcases mem_map.1 hx with ⟨rs, hrs, rfl⟩
      exact hrest rs hrs
    rw [foldl_cons, int32_of_bounds (by omega), ih hrest (by omega) (by omega)]
    ring

lemma specTotal_nonneg (h : Sized rss) : 0 ≤ specTotal rss := by
  apply sum_nonneg
  intro x hx
  rcases mem_map.1 hx with ⟨rs, hrs, rfl⟩
  exact h rs hrs

lemma getReplicaCount_eq (h : Sized rss) (hsum : specTotal rss < 2 ^ 31) :
    getReplicaCountForReplicaSets rss = specTotal rss := by
  unfold getReplicaCountForReplicaSets
  rw [foldl_int32 ReplicaSet.replicas h (le_refl 0) (by rw [zero_add]; exact hsum), zero_add]
  rfl

lemma replicas_le_specTotal (h : Sized rss) (hrs : rs ∈ rss) :
    rs.replicas ≤ specTotal rss := by
  refine single_le_sum ?_ _ (mem_map_of_mem hrs)
  intro x hx
  rcases mem_map.1 hx with ⟨rs, hrs, rfl⟩
  exact h rs hrs

lemma available_le_availableTotal (hrs : rs ∈ rss) :
    (rs.availableReplicas : ℤ) ≤ availableTotal rss := by
  refine single_le_sum ?_ _ (mem_map.2 ⟨rs, hrs, rfl⟩)
  intro x hx
  rcases mem_map.1 hx with ⟨rs, -, rfl⟩
  exact natCast_nonneg _

lemma specTotal_append (rss rss' : List ReplicaSet) :
    specTotal (rss ++ rss') = specTotal rss + specTotal rss' := by
  unfold specTotal
  rw [map_append, sum_append]

lemma specTotal_cons (rs : ReplicaSet) (rss : List ReplicaSet) :
    specTotal (rs :: rss) = rs.replicas + specTotal rss := sum_cons

lemma specTotal_singleton (rs : ReplicaSet) : specTotal [rs] = rs.replicas := by
  simp [specTotal]

lemma specTotal_perm {rss' : List ReplicaSet} (h : rss.Perm rss') :
    specTotal rss = specTotal rss' := (h.map _).sum_eq

lemma sized_perm {rss' : List ReplicaSet} (h : rss.Perm rss') (hsized : Sized rss) :
    Sized rss' := fun rs hrs => hsized rs (h.mem_iff.2 hrs)

lemma Rollout.specTotal_allRSs (s : Rollout) :
    specTotal s.allRSs = specTotal s.oldRSs + s.newRS.replicas := by
  unfold allRSs
  rw [specTotal_append, specTotal_singleton]

lemma Rollout.active_inactive_perm (s : Rollout) : (s.active ++ s.inactive).Perm s.oldRSs :=
  filter_append_perm _ _

lemma sort_perm (rss : List ReplicaSet) : (sortByCreationTimestamp rss).Perm rss :=
  perm_insertionSort _ _

/-! ### The loop on plain integers -/

/-- What the loop does if nothing overflows, with the budget that is left. -/
structure Drained where
  rss : List ReplicaSet
  calls : ℕ
  err : Bool

def Drained.cons (rs : ReplicaSet) (r : Drained) : Drained := { r with rss := rs :: r.rss }

def drain (fails : ℕ → Bool) (cap : ReplicaSet → ℤ) : List ReplicaSet → ℤ → ℕ → Drained
  | [], _, calls => ⟨[], calls, false⟩
  | rs :: rest, budget, calls =>
    if budget ≤ 0 then ⟨rs :: rest, calls, false⟩
    else if rs.replicas = 0 ∨ cap rs = 0 then (drain fails cap rest budget calls).cons rs
    else if cap rs < 0 then ⟨rs :: rest, calls, true⟩
    else if fails calls then ⟨rs :: rest, calls + 1, true⟩
    else
      (drain fails cap rest (budget - min budget (cap rs)) (calls + 1)).cons
        { rs with replicas := rs.replicas - min budget (cap rs) }

/-- A bound for the replicas of a replica set that may be removed, without overflow. -/
structure CapFits (cap : ReplicaSet → ℤ) (rs : ReplicaSet) : Prop where
  nonneg : 0 ≤ rs.replicas
  lt : rs.replicas < 2 ^ 31
  le : cap rs ≤ rs.replicas
  rest_lt : rs.replicas - cap rs < 2 ^ 31

lemma scaleDownLoop_eq (fails : ℕ → Bool) {cap : ReplicaSet → ℤ} {budget : ℤ}
    (hb : budget < 2 ^ 31) (h : ∀ rs ∈ rss, CapFits cap rs) {total : ℤ} (ht : 0 ≤ total)
    (calls : ℕ) :
    (scaleDownLoop fails cap budget rss total calls).rss =
        (drain fails cap rss (budget - total) calls).rss ∧
      (scaleDownLoop fails cap budget rss total calls).calls =
        (drain fails cap rss (budget - total) calls).calls ∧
      (scaleDownLoop fails cap budget rss total calls).err =
        (drain fails cap rss (budget - total) calls).err := by
  induction rss generalizing total calls with
  | nil => exact ⟨rfl, rfl, rfl⟩
  | cons rs rest ih =>
    have hrs := h rs mem_cons_self
    have hrest : ∀ rs ∈ rest, CapFits cap rs := (forall_mem_cons.1 h).2
    rcases hrs with ⟨hnonneg, hlt, hle, hrestlt⟩
    unfold scaleDownLoop drain
    by_cases hdone : budget ≤ total
    · rw [if_pos hdone, if_pos (by omega)]
      exact ⟨rfl, rfl, rfl⟩
    rw [if_neg hdone, if_neg (by omega : ¬ budget - total ≤ 0)]
    by_cases hskip : rs.replicas = 0 ∨ cap rs = 0
    · rw [if_pos hskip, if_pos hskip]
      rcases ih hrest ht calls with ⟨hrss, hcalls, herr⟩
      exact ⟨congrArg (rs :: ·) hrss, hcalls, herr⟩
    rw [if_neg hskip, if_neg hskip]
    -- none of the conversions to `int32` changes a value
    set count := min (budget - total) (cap rs) with hmin
    have hcount : int32 (min (int32 (budget - total)) (cap rs)) = count := by
      have hleft : int32 (budget - total) = budget - total := int32_of_bounds (by omega)
      rw [hleft, int32_of_bounds (by omega)]
    have hnew : int32 (rs.replicas - count) = rs.replicas - count :=
      int32_of_bounds (by omega)
    dsimp only
    rw [hcount, hnew]
    by_cases hup : cap rs < 0
    · rw [if_pos (by omega), if_pos hup]
      exact ⟨rfl, rfl, rfl⟩
    rw [if_neg (by omega), if_neg hup]
    unfold scaleReplicaSetAndRecordEvent
    rw [if_neg (by omega)]
    cases fails calls with
    | true => exact ⟨rfl, rfl, rfl⟩
    | false =>
      have htotal : int32 (total + count) = total + count :=
        int32_of_bounds (by omega)
      have hleft : budget - (total + count) = budget - total - count := by ring
      have hih := ih hrest (show 0 ≤ total + count by omega) (calls + 1)
      rw [hleft] at hih
      rcases hih with ⟨hrss, hcalls, herr⟩
      simp only [Bool.false_eq_true, if_false, htotal]
      exact ⟨congrArg (_ :: ·) hrss, hcalls, herr⟩

/-! ### What every scaling keeps -/

/-- A replica set after it was scaled down, or left as it is. -/
structure Shrunk (rs rs' : ReplicaSet) : Prop where
  name : rs'.name = rs.name
  creationTimestamp : rs'.creationTimestamp = rs.creationTimestamp
  availableReplicas : rs'.availableReplicas = rs.availableReplicas
  le : rs'.replicas ≤ rs.replicas
  nonneg : 0 ≤ rs'.replicas

lemma Shrunk.refl (h : 0 ≤ rs.replicas) : Shrunk rs rs :=
  ⟨rfl, rfl, rfl, le_refl _, h⟩

lemma Shrunk.trans {rs' rs'' : ReplicaSet} (h : Shrunk rs rs') (h' : Shrunk rs' rs'') :
    Shrunk rs rs'' :=
  ⟨h'.name.trans h.name, h'.creationTimestamp.trans h.creationTimestamp,
    h'.availableReplicas.trans h.availableReplicas, h'.le.trans h.le, h'.nonneg⟩

/-- Scaled down one by one. -/
abbrev AllShrunk : List ReplicaSet → List ReplicaSet → Prop := List.Forall₂ Shrunk

lemma allShrunk_refl (h : Sized rss) : AllShrunk rss rss := by
  refine forall₂_same.2 ?_
  intro rs hrs
  exact Shrunk.refl (h rs hrs)

variable {rss' : List ReplicaSet}

lemma AllShrunk.trans {rss'' : List ReplicaSet} (h : AllShrunk rss rss')
    (h' : AllShrunk rss' rss'') : AllShrunk rss rss'' := by
  induction h generalizing rss'' with
  | nil => exact h'
  | cons hrs _ ih =>
    cases h' with
    | cons hrs' hrest' => exact .cons (hrs.trans hrs') (ih hrest')

lemma AllShrunk.sized (h : AllShrunk rss rss') : Sized rss' := by
  induction h with
  | nil =>
    intro rs hrs
    cases hrs
  | cons hrs _ ih => exact forall_mem_cons.2 ⟨hrs.nonneg, ih⟩

lemma AllShrunk.specTotal_le (h : AllShrunk rss rss') :
    specTotal rss' ≤ specTotal rss := by
  induction h with
  | nil => exact le_refl _
  | cons hrs _ ih =>
    rw [specTotal_cons, specTotal_cons]
    have hle := hrs.le
    omega

lemma AllShrunk.pairwise (h : AllShrunk rss rss')
    (hsorted : rss.Pairwise fun a b => (!b.less a) = true) :
    rss'.Pairwise fun a b => (!b.less a) = true := by
  induction h with
  | nil => exact hsorted
  | @cons rs rs' rest rest' hrs hrest ih =>
    rcases pairwise_cons.1 hsorted with ⟨hfirst, hsorted⟩
    refine pairwise_cons.2 ⟨?_, ih hsorted⟩
    intro b' hb'
    rcases mem_iff_getElem.1 hb' with ⟨n, hn, rfl⟩
    have hn' : n < rest.length := by
      rw [hrest.length_eq]
      exact hn
    have hb := hrest.get hn' hn
    have hle := hfirst _ (getElem_mem hn')
    unfold ReplicaSet.less at hle ⊢
    rw [hrs.name, hrs.creationTimestamp]
    rw [show (rest'[n]).name = _ from hb.name,
      show (rest'[n]).creationTimestamp = _ from hb.creationTimestamp]
    exact hle

lemma drain_shrunk (fails : ℕ → Bool) {cap : ReplicaSet → ℤ} (hsized : Sized rss)
    (hcap : ∀ rs ∈ rss, cap rs ≤ rs.replicas) (budget : ℤ) (calls : ℕ) :
    AllShrunk rss (drain fails cap rss budget calls).rss := by
  fun_induction drain fails cap rss budget calls with
  | case3 rs rest _ _ _ _ ih =>
    have hrest := ih (forall_mem_cons.1 hsized).2
      (forall_mem_cons.1 hcap).2
    exact .cons (Shrunk.refl (hsized rs mem_cons_self)) hrest
  | case6 rs rest budget _ _ _ hcap' _ ih =>
    have hrs := hsized rs mem_cons_self
    have hle := hcap rs mem_cons_self
    refine .cons ⟨rfl, rfl, rfl, ?_, ?_⟩ (ih (forall_mem_cons.1 hsized).2
      (forall_mem_cons.1 hcap).2)
    · show rs.replicas - min budget (cap rs) ≤ rs.replicas
      omega
    · show 0 ≤ rs.replicas - min budget (cap rs)
      omega
  | _ => exact allShrunk_refl hsized

/-! ### `reconcileOldReplicaSets` on plain integers -/

lemma ReplicaSet.not_less_iff {a b : ReplicaSet} : (!b.less a) = true ↔
    a.creationTimestamp < b.creationTimestamp ∨
      a.creationTimestamp = b.creationTimestamp ∧ a.name ≤ b.name := by
  unfold ReplicaSet.less
  split_ifs with heq
  · simp only [Bool.not_eq_true', decide_eq_false_iff_not, not_lt, heq, lt_irrefl, false_or,
      true_and]
  simp only [Bool.not_eq_true', decide_eq_false_iff_not]
  constructor
  · intro hle
    left
    omega
  · rintro (hlt | ⟨hsame, -⟩)
    · omega
    · exact absurd hsame.symm heq

lemma sort_pairwise (rss : List ReplicaSet) :
    (sortByCreationTimestamp rss).Pairwise fun a b => (!b.less a) = true := by
  refine @pairwise_insertionSort _ _ _ ⟨?_⟩ ⟨?_⟩ rss
  rotate_left
  · intro a b c hab hbc
    rw [ReplicaSet.not_less_iff] at hab hbc ⊢
    rcases hab with hab | ⟨hab, hab'⟩
    · rcases hbc with hbc | ⟨hbc, -⟩
      · exact Or.inl (hab.trans hbc)
      · exact Or.inl (hbc ▸ hab)
    · rcases hbc with hbc | ⟨hbc, hbc'⟩
      · exact Or.inl (hab ▸ hbc)
      · exact Or.inr ⟨hab.trans hbc, hab'.trans hbc'⟩
  · intro a b
    rw [ReplicaSet.not_less_iff, ReplicaSet.not_less_iff]
    rcases lt_trichotomy a.creationTimestamp b.creationTimestamp with hlt | heq | hgt
    · exact Or.inl (Or.inl hlt)
    · rcases le_total a.name b.name with hle | hle
      · exact Or.inl (Or.inr ⟨heq, hle⟩)
      · exact Or.inr (Or.inr ⟨heq.symm, hle⟩)
    · exact Or.inr (Or.inl hgt)

lemma sort_of_pairwise (h : rss.Pairwise fun a b => (!b.less a) = true) :
    sortByCreationTimestamp rss = rss :=
  h.insertionSort_eq

/-! ### Both loops -/

/-- Sizes and numbers are `int32` values, and not negative. -/
def InRange (rss : List ReplicaSet) : Prop :=
  ∀ rs ∈ rss, 0 ≤ rs.replicas ∧ rs.replicas < 2 ^ 31 ∧ (rs.availableReplicas : ℤ) < 2 ^ 31

instance (rss : List ReplicaSet) : Decidable (InRange rss) :=
  inferInstanceAs (Decidable (∀ rs ∈ rss,
    0 ≤ rs.replicas ∧ rs.replicas < 2 ^ 31 ∧ (rs.availableReplicas : ℤ) < 2 ^ 31))

lemma unhealthy_eq (hnonneg : 0 ≤ rs.replicas) (hlt : rs.replicas < 2 ^ 31)
    (havailable : (rs.availableReplicas : ℤ) < 2 ^ 31) :
    unhealthy rs = rs.replicas - rs.availableReplicas := int32_of_bounds (by omega)

lemma InRange.sized (h : InRange rss) : Sized rss :=
  fun rs hrs => (h rs hrs).1

lemma InRange.unhealthy_fits (h : InRange rss) :
    ∀ rs ∈ rss, CapFits unhealthy rs := by
  intro rs hrs
  rcases h rs hrs with ⟨hnonneg, hlt, havailable⟩
  have heq := unhealthy_eq hnonneg hlt havailable
  exact ⟨hnonneg, hlt, by omega, by omega⟩

lemma AllShrunk.inRange (h : AllShrunk rss rss') (hrange : InRange rss) : InRange rss' := by
  intro rs' hrs'
  rcases mem_iff_getElem.1 hrs' with ⟨n, hn, rfl⟩
  have hn' : n < rss.length := by
    rw [h.length_eq]
    exact hn
  have hshrunk := h.get hn' hn
  rcases hrange _ (getElem_mem hn') with ⟨-, hlt, havailable⟩
  have hle : (rss'[n]).replicas ≤ (rss[n]).replicas := hshrunk.le
  have heq : (rss'[n]).availableReplicas = (rss[n]).availableReplicas := hshrunk.availableReplicas
  exact ⟨hshrunk.nonneg, by omega, by omega⟩

/-- Scaling down does not change how many replicas are reported as available. -/
lemma AllShrunk.getAvailable_eq (h : AllShrunk rss rss') (newRS : ReplicaSet) :
    getAvailableReplicaCountForReplicaSets (rss' ++ [newRS]) =
      getAvailableReplicaCountForReplicaSets (rss ++ [newRS]) := by
  have hmap : rss'.map ReplicaSet.availableReplicas = rss.map ReplicaSet.availableReplicas := by
    induction h with
    | nil => rfl
    | cons hrs _ ih => rw [map_cons, map_cons, ih, hrs.availableReplicas]
  have hfold : ∀ l : List ReplicaSet, getAvailableReplicaCountForReplicaSets l =
      (l.map ReplicaSet.availableReplicas).foldl (fun total (n : ℕ) => int32 (total + n)) 0 := by
    intro l
    rw [foldl_map]
    rfl
  rw [hfold, hfold, map_append, map_append, hmap]

namespace Rollout

variable (s : Rollout)

/-- How many replicas the first loop may remove. -/
def maxScaledDown : ℤ :=
  int32 (int32 (getReplicaCountForReplicaSets s.allRSs - d.minAvailable) -
    int32 (s.newRS.replicas - s.newRS.availableReplicas))

/-- The number of pods that are reported as available when the second loop starts. -/
def availablePodCount : ℤ :=
  getAvailableReplicaCountForReplicaSets (sortByCreationTimestamp s.active ++ [s.newRS])

/-- How many replicas the second loop may remove. -/
def totalScaleDownCount : ℤ :=
  if s.availablePodCount ≤ d.minAvailable then 0 else int32 (s.availablePodCount - d.minAvailable)

/-- Whether `reconcileOldReplicaSets` returns before its loops. -/
def Settled : Prop :=
  getReplicaCountForReplicaSets s.active = 0 ∨ s.maxScaledDown d ≤ 0

instance (d : Deployment) (s : Rollout) : Decidable (s.Settled d) :=
  inferInstanceAs (Decidable (_ ∨ _))

/-- `reconcileOldReplicaSets` for sorted active replica sets: unavailable replicas are removed
first, then available ones. -/
def drainOld (fails : ℕ → Bool) : List ReplicaSet :=
  let rss := sortByCreationTimestamp s.active
  if s.Settled d then rss
  else
    let cleaned := drain fails unhealthy rss (s.maxScaledDown d) 0
    if cleaned.err then cleaned.rss
    else (drain fails ReplicaSet.replicas cleaned.rss (s.totalScaleDownCount d) cleaned.calls).rss

end Rollout

section

variable {d} {s : Rollout}

lemma NoOverflow.inRange (h : NoOverflow d s) (hsized : Sized s.allRSs) : InRange s.allRSs := by
  intro rs hrs
  have hspec := replicas_le_specTotal hsized hrs
  have havailable := available_le_availableTotal hrs
  have hlt := h.spec
  have hlt' := h.available
  exact ⟨hsized rs hrs, by omega, by omega⟩

lemma mem_allRSs_of_mem_active (h : rs ∈ sortByCreationTimestamp s.active) :
    rs ∈ s.allRSs := by
  have hactive := (sort_perm s.active).mem_iff.1 h
  exact mem_append_left _ (mem_of_mem_filter hactive)

lemma InRange.active (h : InRange s.allRSs) : InRange (sortByCreationTimestamp s.active) :=
  fun rs hrs => h rs (mem_allRSs_of_mem_active hrs)

lemma scaleDownOld_eq (fails : ℕ → Bool) (calls : ℕ)
    (hrange : InRange s.allRSs) (hshrunk : AllShrunk (sortByCreationTimestamp s.active) rss) :
    (scaleDownOldReplicaSetsForRollingUpdate d fails (rss ++ [s.newRS]) rss calls).rss =
      (drain fails ReplicaSet.replicas rss (s.totalScaleDownCount d) calls).rss := by
  have hcap : ∀ rs ∈ rss, CapFits ReplicaSet.replicas rs := by
    intro rs hrs
    rcases hshrunk.inRange hrange.active rs hrs with ⟨hnonneg, hlt, -⟩
    exact ⟨hnonneg, hlt, le_refl _, by omega⟩
  unfold scaleDownOldReplicaSetsForRollingUpdate
  dsimp only
  rw [hshrunk.getAvailable_eq]
  unfold Rollout.totalScaleDownCount Rollout.availablePodCount
  split
  · cases rss with
    | nil => rfl
    | cons rs rest =>
      unfold drain
      rw [if_pos (le_refl 0)]
  · rw [sort_of_pairwise (hshrunk.pairwise (sort_pairwise s.active))]
    have hlt := (int32_bounds (s.availablePodCount - d.minAvailable)).2
    have hloop := (scaleDownLoop_eq fails hlt hcap (le_refl 0) calls).1
    rw [sub_zero] at hloop
    exact hloop

section

variable (hrange : InRange s.allRSs) (fails : ℕ → Bool)

include hrange

lemma reconcileOld_perm :
    (s.reconcileOld d fails).oldRSs.Perm (s.drainOld d fails ++ s.inactive) := by
  have hmax : int32 (int32 (getReplicaCountForReplicaSets s.allRSs - d.minAvailable) -
    int32 (s.newRS.replicas - s.newRS.availableReplicas)) = s.maxScaledDown d := rfl
  unfold Rollout.reconcileOld
  refine List.Perm.append_right _ ?_
  unfold reconcileOldReplicaSets Rollout.drainOld
  dsimp only
  rw [hmax]
  by_cases hnone : getReplicaCountForReplicaSets s.active = 0
  · rw [if_pos hnone, if_pos (show s.Settled d from Or.inl hnone)]
    exact (sort_perm s.active).symm
  by_cases hstop : s.maxScaledDown d ≤ 0
  · rw [if_neg hnone, if_pos hstop, if_pos (show s.Settled d from Or.inr hstop)]
    exact (sort_perm s.active).symm
  rw [if_neg hnone, if_neg hstop, if_neg (show ¬ s.Settled d from not_or.2 ⟨hnone, hstop⟩)]
  have hlt : s.maxScaledDown d < 2 ^ 31 := (int32_bounds _).2
  have hclean := scaleDownLoop_eq fails hlt hrange.active.unhealthy_fits (le_refl 0) 0
  rw [sub_zero] at hclean
  rcases hclean with ⟨hcleaned, hcalls, herr⟩
  have hshrunk := drain_shrunk fails hrange.active.sized
    (fun rs hrs => (hrange.active.unhealthy_fits rs hrs).le) (s.maxScaledDown d) 0
  unfold cleanupUnhealthyReplicas
  rw [hcleaned, hcalls, herr]
  set cleaned := drain fails unhealthy (sortByCreationTimestamp s.active) (s.maxScaledDown d) 0
  by_cases hfailed : cleaned.err = true
  · rw [if_pos hfailed, if_pos hfailed]
  rw [if_neg hfailed, if_neg hfailed]
  have hscaled := scaleDownOld_eq (d := d) fails cleaned.calls hrange hshrunk
  split
  · exact List.Perm.of_eq hscaled
  · exact List.Perm.of_eq hscaled

lemma drainOld_shrunk : AllShrunk (sortByCreationTimestamp s.active) (s.drainOld d fails) := by
  unfold Rollout.drainOld
  dsimp only
  split
  · exact allShrunk_refl hrange.active.sized
  have hclean := drain_shrunk fails hrange.active.sized
    (fun rs hrs => (hrange.active.unhealthy_fits rs hrs).le) (s.maxScaledDown d) 0
  split
  · exact hclean
  · exact hclean.trans (drain_shrunk fails hclean.sized (fun _ _ => le_refl _) _ _)

/-- The old replica sets are scaled down one by one, or left as they are. -/
lemma reconcileOld_shrunk :
    ∃ rss rss', rss.Perm s.oldRSs ∧ rss'.Perm (s.reconcileOld d fails).oldRSs ∧
      AllShrunk rss rss' := by
  refine ⟨sortByCreationTimestamp s.active ++ s.inactive, _, ?_,
    (reconcileOld_perm hrange fails).symm, ?_⟩
  · exact ((sort_perm s.active).append_right _).trans s.active_inactive_perm
  · refine rel_append (drainOld_shrunk hrange fails) (allShrunk_refl ?_)
    intro rs hrs
    exact hrange.sized rs (mem_append_left _ (mem_of_mem_filter hrs))

end

/-! ## Staying below the surge -/

section

variable (h : NoOverflow d s) (hsized : Sized s.allRSs) (hrolling : d.strategy = .rollingUpdate)

include h hsized hrolling

/-- A new replica set that is too small stays within `replicas` and the surge. -/
lemma newRSNewReplicas_spec (hsmall : s.newRS.replicas < d.replicas) {n : ℤ}
    (hn : newRSNewReplicas d s.allRSs s.newRS = some n) :
    s.newRS.replicas ≤ n ∧ n ≤ d.replicas ∧
      (n = s.newRS.replicas ∨ specTotal s.oldRSs + n ≤ d.replicas + d.surge) := by
  have hnew := hsized s.newRS (mem_append_right _ (mem_singleton_self _))
  have hR := d.replicas_lt
  have htotal : 0 ≤ specTotal s.oldRSs :=
    specTotal_nonneg fun rs hrs => hsized rs (mem_append_left _ hrs)
  have hsum := s.specTotal_allRSs
  unfold newRSNewReplicas at hn
  rw [hrolling] at hn
  rcases Option.bind_eq_some_iff.1 hn with ⟨maxSurge, hsurge, hn⟩
  have heq : d.surge = maxSurge := by
    unfold Deployment.surge
    rw [hsurge]
    rfl
  have hrange := h.surge
  have hmax := h.maxTotal
  rw [heq] at hrange hmax ⊢
  dsimp only at hn
  rw [int32_of_bounds hrange, int32_of_bounds hmax,
    getReplicaCount_eq hsized h.spec, hsum] at hn
  split_ifs at hn with hroom
  · cases hn
    exact ⟨le_refl _, hsmall.le, Or.inl rfl⟩
  set up := d.replicas + maxSurge - (specTotal s.oldRSs + s.newRS.replicas)
  have hup : int32 up = up := int32_of_bounds (by omega)
  have hwanted : int32 (d.replicas - s.newRS.replicas) = d.replicas - s.newRS.replicas :=
    int32_of_bounds (by omega)
  have hcount : int32 (min up (d.replicas - s.newRS.replicas)) =
      min up (d.replicas - s.newRS.replicas) := int32_of_bounds (by omega)
  rw [hup, hwanted, hcount, int32_of_bounds (by omega)] at hn
  cases hn
  exact ⟨by omega, by omega, Or.inr (by omega)⟩

/-- What `reconcileNewReplicaSet` does to the new replica set: nothing, or a size of at most
`replicas` that is smaller, or within the surge. -/
lemma reconcileNew_spec (fails : Bool) :
    ∃ newRS, s.reconcileNew d fails = { s with newRS := newRS } ∧ (newRS = s.newRS ∨
      0 ≤ newRS.replicas ∧ newRS.replicas ≤ d.replicas ∧ (newRS.replicas ≤ s.newRS.replicas ∨
        specTotal s.oldRSs + newRS.replicas ≤ d.replicas + d.surge)) := by
  have hnew := hsized s.newRS (mem_append_right _ (mem_singleton_self _))
  have hR := d.replicas_nonneg
  -- an update to a given size
  have hscale : ∀ {n : ℤ} {r : Bool × ReplicaSet},
      scaleReplicaSetAndRecordEvent fails s.newRS n = some r →
        r.2 = s.newRS ∨ r.2.replicas = n := by
    intro n r hr
    unfold scaleReplicaSetAndRecordEvent at hr
    split at hr
    · cases hr
      exact Or.inl rfl
    · split_ifs at hr
      cases hr
      exact Or.inr rfl
  unfold Rollout.reconcileNew
  cases hres : reconcileNewReplicaSet d s.allRSs s.newRS fails with
  | none => exact ⟨s.newRS, rfl, Or.inl rfl⟩
  | some r =>
    refine ⟨r.2, rfl, ?_⟩
    unfold reconcileNewReplicaSet at hres
    split at hres
    · cases hres
      exact Or.inl rfl
    split at hres
    · -- the new replica set is too large
      rcases hscale hres with hsame | hset
      · exact Or.inl hsame
      · exact Or.inr ⟨by omega, by omega, Or.inl (by omega)⟩
    rcases Option.bind_eq_some_iff.1 hres with ⟨n, hn, hres⟩
    rcases newRSNewReplicas_spec h hsized hrolling (by omega) hn with ⟨hge, hle, hbound⟩
    rcases hscale hres with hsame | hset
    · exact Or.inl hsame
    right
    refine ⟨by omega, by omega, ?_⟩
    rcases hbound with heq | hbound
    · exact Or.inl (by omega)
    · exact Or.inr (by rw [hset]; exact hbound)

end

end

/-- An old replica set before and after a step: it has not become larger, or negative. -/
def NotLarger (rs rs' : ReplicaSet) : Prop :=
  rs'.name = rs.name ∧ 0 ≤ rs'.replicas ∧ rs'.replicas ≤ rs.replicas

/-- What a rolling sync may do to the replica sets. -/
structure WithinSurge (d : Deployment) (s s' : Rollout) : Prop where
  total : specTotal s'.allRSs ≤ max (specTotal s.allRSs) (d.replicas + d.surge)
  newRS : s'.newRS.replicas = s.newRS.replicas ∨ s'.newRS.replicas ≤ d.replicas
  sized : Sized s'.allRSs
  oldRSs : ∃ rss rss', rss.Perm s.oldRSs ∧ rss'.Perm s'.oldRSs ∧ List.Forall₂ NotLarger rss rss'

lemma withinSurge_step {d : Deployment} {start s s' : Rollout} {l : RolloutLabel}
    (hrolling : d.strategy = .rollingUpdate) (h : NoOverflow d s) (hsized : Sized s.allRSs)
    (hstep : (rolling d start).step s l = some s') : WithinSurge d s s' := by
  have hold : Sized s.oldRSs := fun rs hrs => hsized rs (mem_append_left _ hrs)
  have hnew := hsized s.newRS (mem_append_right _ (mem_singleton_self _))
  have hsum := Rollout.specTotal_allRSs
  have hall : ∀ s : Rollout, Sized s.oldRSs → 0 ≤ s.newRS.replicas → Sized s.allRSs :=
    fun s hold hnew => forall_mem_append.2 ⟨hold, forall_mem_singleton.2 hnew⟩
  cases l with
  | reconcileNew fails =>
    cases hstep
    rcases reconcileNew_spec h hsized hrolling fails with ⟨newRS, heq, hspec⟩
    have hnew' : 0 ≤ newRS.replicas := by
      rcases hspec with rfl | hspec
      · exact hnew
      · exact hspec.1
    rw [heq]
    constructor
    · rw [hsum, hsum s]
      show specTotal s.oldRSs + newRS.replicas ≤ _
      rcases hspec with rfl | ⟨-, -, hle | hle⟩
      · exact le_max_left _ _
      · exact le_max_of_le_left (by omega)
      · exact le_max_of_le_right hle
    · rcases hspec with rfl | hspec
      · exact Or.inl rfl
      · exact Or.inr hspec.2.1
    · exact hall _ hold hnew'
    · refine ⟨s.oldRSs, s.oldRSs, .refl _, .refl _, forall₂_same.2 ?_⟩
      intro rs hrs
      exact ⟨rfl, hold rs hrs, le_refl _⟩
  | reconcileOld fails =>
    -- the old replica sets only shrink, in an order of their own
    cases hstep
    rcases reconcileOld_shrunk (h.inRange hsized) fails with ⟨rss, rss', hperm, hperm', hshrunk⟩
    have hold' : Sized (s.reconcileOld d fails).oldRSs := sized_perm hperm' hshrunk.sized
    constructor
    · rw [hsum, hsum s, ← specTotal_perm hperm, ← specTotal_perm hperm']
      have hle := hshrunk.specTotal_le
      show specTotal rss' + s.newRS.replicas ≤ _
      exact le_max_of_le_left (by omega)
    · exact Or.inl rfl
    · exact hall _ hold' hnew
    · refine ⟨rss, rss', hperm, hperm', hshrunk.imp ?_⟩
      intro rs rs' hrs
      exact ⟨hrs.name, hrs.nonneg, hrs.le⟩
  | report available =>
    -- a report leaves every specified size as it is
    cases hstep
    have hmap : List.Forall₂ NotLarger s.oldRSs (s.report available).oldRSs := by
      show List.Forall₂ NotLarger s.oldRSs (s.oldRSs.map _)
      refine forall₂_map_right_iff.2 (forall₂_same.2 ?_)
      intro rs hrs
      exact ⟨rfl, hold rs hrs, le_refl _⟩
    have hspec : specTotal (s.report available).oldRSs = specTotal s.oldRSs := by
      show specTotal (s.oldRSs.map _) = _
      unfold specTotal
      rw [map_map]
      rfl
    constructor
    · rw [hsum, hsum s, hspec]
      exact le_max_left _ _
    · exact Or.inl rfl
    · refine hall _ ?_ hnew
      intro rs hrs
      rcases mem_map.1 hrs with ⟨rs', hrs', rfl⟩
      exact hold rs' hrs'
    · exact ⟨_, _, .refl _, .refl _, hmap⟩

/-- Every step of a rolling update, in every run in which no sum overflows. -/
theorem rolling_respects_maxSurge (d : Deployment) (hrolling : d.strategy = .rollingUpdate)
    (start : Rollout) (hstart : Sized start.allRSs) {tr : List RolloutLabel} {s : Rollout}
    (h : (rolling d start).ReachWhen (fun s _ => NoOverflow d s) tr s) (hs : NoOverflow d s)
    {l : RolloutLabel} {s' : Rollout} (hstep : (rolling d start).step s l = some s') :
    WithinSurge d s s' := by
  have hsized : Sized s.allRSs := by
    refine h.invariant (fun s => Sized s.allRSs) hstart ?_
    intro s l s' hinv hok hstep
    exact (withinSurge_step hrolling hok hinv hstep).sized
  exact withinSurge_step hrolling hs hsized hstep

/-- Three replicas, of which one more may be created. -/
def threeReplicas : Deployment :=
  { replicas := 3, strategy := .rollingUpdate, maxSurge := some (.int 1),
    maxUnavailable := some (.int 0), replicas_nonneg := by decide, replicas_lt := by decide }

theorem rolling_respects_maxSurge_three :
    let start : Rollout := ⟨⟨"new", 1, 0, 0⟩, [⟨"old", 0, 3, 3⟩]⟩
    WithinSurge threeReplicas start (start.reconcileNew threeReplicas false) ∧
      (start.reconcileNew threeReplicas false).newRS.replicas = 1 := by
  refine ⟨rolling_respects_maxSurge threeReplicas rfl _ (by decide) .init ?_
    (l := .reconcileNew false) rfl, by decide⟩
  exact ⟨by decide, by decide, by decide, by decide⟩

end Kubernetes.Controllers
