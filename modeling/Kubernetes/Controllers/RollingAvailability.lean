import Kubernetes.Controllers.RollingUpdate

/-! # Which pods a rolling update can count on

A replica set that was scaled down may for a while report more available replicas than it is to
have. Only `min replicas availableReplicas` of its pods are assured: the others are going to be
deleted. A step of `reconcileOldReplicaSets` should leave `replicas - maxUnavailable` pods
assured, or as many as there were.

It does not always do so (`availability_lost`): the number of available replicas that it spends
counts pods that are about to be deleted. `maxUnavailable_respected_iff` says exactly when it
does.
-/

namespace Kubernetes.Controllers

open Int List Option

variable (rs : ReplicaSet)

/-- The number of pods of a replica set that are available and not about to be deleted. -/
def assuredOf : ℤ := min rs.replicas rs.availableReplicas

def assured (rss : List ReplicaSet) : ℤ := (rss.map assuredOf).sum

/-- How many replicas can be removed from the first replica sets on without removing more than
`k` assured pods. -/
def room (k : ℤ) : List ReplicaSet → ℤ
  | [] => 0
  | rs :: rest =>
    if assuredOf rs ≤ k then rs.replicas + room (k - assuredOf rs) rest
    else rs.replicas - assuredOf rs + k

/-- The unavailable replicas before the first replica set that reports more available replicas
than it is to have, if there is such a replica set. -/
def unhealthyBeforeLagging : List ReplicaSet → Option ℤ
  | [] => none
  | rs :: rest =>
    if rs.replicas < rs.availableReplicas then some 0
    else (unhealthyBeforeLagging rest).map (rs.replicas - rs.availableReplicas + ·)

/-- A lagging replica set is met before the first loop has removed `budget` replicas. -/
def LaggingWithin (budget : ℤ) (rss : List ReplicaSet) : Prop :=
  ∃ unhealthy ∈ unhealthyBeforeLagging rss, unhealthy < budget

instance (budget : ℤ) (rss : List ReplicaSet) : Decidable (LaggingWithin budget rss) :=
  inferInstanceAs (Decidable (∃ unhealthy ∈ unhealthyBeforeLagging rss, unhealthy < budget))

namespace Rollout

/-- How many assured pods may be lost. -/
def allowance (d : Deployment) (s : Rollout) : ℤ :=
  max 0 (assured s.allRSs - (d.replicas - d.maxUnavailablePods))

/-- The condition under which the assured pods suffice: nothing is removed, or the first loop ends
with an error, or what the second loop removes leaves enough of them. -/
def Spared (d : Deployment) (s : Rollout) : Prop :=
  s.Settled d ∨ LaggingWithin (s.maxScaledDown d) (sortByCreationTimestamp s.active) ∨
    assured (sortByCreationTimestamp s.active) ≤ s.allowance d ∨
    s.totalScaleDownCount d ≤ max (s.allowance d)
      (room (s.allowance d) (sortByCreationTimestamp s.active) - s.maxScaledDown d)

instance (d : Deployment) (s : Rollout) : Decidable (s.Spared d) :=
  inferInstanceAs (Decidable (_ ∨ _ ∨ _ ∨ _))

end Rollout

lemma room_cons (k : ℤ) (rs : ReplicaSet) (rss : List ReplicaSet) :
    room k (rs :: rss) = if assuredOf rs ≤ k then rs.replicas + room (k - assuredOf rs) rss
      else rs.replicas - assuredOf rs + k :=
  rfl

lemma assured_cons (rss : List ReplicaSet) :
    assured (rs :: rss) = assuredOf rs + assured rss := sum_cons

lemma assured_append (rss rss' : List ReplicaSet) :
    assured (rss ++ rss') = assured rss + assured rss' := by
  unfold assured
  rw [map_append, sum_append]

lemma assured_perm {rss rss' : List ReplicaSet} (h : rss.Perm rss') :
    assured rss = assured rss' := (h.map _).sum_eq

section

variable {rss : List ReplicaSet}

lemma assuredOf_nonneg {rs : ReplicaSet} (h : 0 ≤ rs.replicas) : 0 ≤ assuredOf rs := by
  unfold assuredOf
  omega

lemma assured_nonneg (h : Sized rss) : 0 ≤ assured rss := by
  apply sum_nonneg
  intro x hx
  rcases mem_map.1 hx with ⟨rs, hrs, rfl⟩
  exact assuredOf_nonneg (h rs hrs)

lemma assuredOf_le : assuredOf rs ≤ rs.replicas := min_le_left _ _

variable {k : ℤ}

lemma le_room (h : Sized rss) (hk : 0 ≤ k) : min k (assured rss) ≤ room k rss := by
  induction rss generalizing k with
  | nil => exact min_le_right _ _
  | cons rs rest ih =>
    have hrest : Sized rest := (forall_mem_cons.1 h).2
    have hle := assuredOf_le rs
    rw [room_cons, assured_cons]
    split
    · have hroom := ih hrest (show 0 ≤ k - assuredOf rs by omega)
      omega
    · omega

lemma room_nonneg (h : Sized rss) (hk : 0 ≤ k) : 0 ≤ room k rss :=
  (le_min hk (assured_nonneg h)).trans (le_room h hk)

/-- No replica set has more assured pods after it was scaled down. -/
lemma AllShrunk.assured_le {rss' : List ReplicaSet} (h : AllShrunk rss rss') :
    assured rss' ≤ assured rss := by
  induction h with
  | nil => exact le_refl _
  | cons hrs _ ih =>
    rw [assured_cons, assured_cons]
    have hle := hrs.le
    have heq := hrs.availableReplicas
    unfold assuredOf
    omega

/-- What holds of the replica sets on which the loops work. -/
def Ranged (rss : List ReplicaSet) : Prop :=
  ∀ rs ∈ rss, 0 < rs.replicas ∧ unhealthy rs = rs.replicas - rs.availableReplicas

/-! ## Removing unavailable replicas -/

/-- The first loop takes no assured pod. -/
lemma assured_drain_unhealthy (h : Ranged rss) (fails : ℕ → Bool) (budget : ℤ) (calls : ℕ) :
    assured (drain fails unhealthy rss budget calls).rss = assured rss := by
  fun_induction drain fails unhealthy rss budget calls with
  | case3 rs rest _ _ _ _ ih =>
    show assured (rs :: (drain fails unhealthy rest _ _).rss) = _
    rw [assured_cons, assured_cons, ih (forall_mem_cons.1 h).2]
  | case6 rs rest _ _ _ _ _ _ ih =>
    rcases h rs mem_cons_self with ⟨hpos, hcap⟩
    show assured ({ rs with replicas := _ } :: (drain fails unhealthy rest _ _).rss) = _
    rw [assured_cons, assured_cons, ih (forall_mem_cons.1 h).2]
    unfold assuredOf
    dsimp only
    omega
  | _ => rfl

lemma unhealthyBeforeLagging_nonneg {u : ℤ} (hu : unhealthyBeforeLagging rss = some u) :
    0 ≤ u := by
  induction rss generalizing u with
  | nil => cases hu
  | cons rs rest ih =>
    unfold unhealthyBeforeLagging at hu
    split at hu
    · cases hu
      exact le_refl 0
    · rcases map_eq_some_iff.1 hu with ⟨v, hv, rfl⟩
      have hnonneg := ih hv
      omega

variable {fails : ℕ → Bool} {budget : ℤ}

/-- If a lagging replica set is met before the budget is used up, the loop ends with an error. -/
lemma drain_unhealthy_err (h : Ranged rss) (hfails : ∀ n, fails n = false) {u : ℤ}
    (hu : unhealthyBeforeLagging rss = some u) (hlt : u < budget) (calls : ℕ) :
    (drain fails unhealthy rss budget calls).err = true := by
  induction rss generalizing u budget calls with
  | nil => cases hu
  | cons rs rest ih =>
    rcases h rs mem_cons_self with ⟨hrs, hcap⟩
    have hrest : Ranged rest := (forall_mem_cons.1 h).2
    have hpos := unhealthyBeforeLagging_nonneg hu
    unfold unhealthyBeforeLagging at hu
    unfold drain
    rw [if_neg (by omega)]
    split at hu
    · rw [if_neg (by omega), if_pos (by omega)]
    rcases map_eq_some_iff.1 hu with ⟨v, hv, rfl⟩
    split
    · exact ih hrest hv (by omega) calls
    · rw [if_neg (by omega), hfails, if_neg (by decide)]
      exact ih hrest hv (by omega) (calls + 1)

/-- Otherwise it does not, and what it removes is taken from the front first. -/
lemma drain_unhealthy_room (h : Ranged rss) (hfails : ∀ n, fails n = false) (hpos : 0 ≤ budget)
    (hu : ¬ LaggingWithin budget rss) (hk : 0 ≤ k) (calls : ℕ) :
    (drain fails unhealthy rss budget calls).err = false ∧
      room k (drain fails unhealthy rss budget calls).rss =
        max (min k (assured rss)) (room k rss - budget) := by
  induction rss generalizing budget k calls with
  | nil =>
    refine ⟨rfl, ?_⟩
    show 0 = max (min k 0) (0 - budget)
    omega
  | cons rs rest ih =>
    have hsized : Sized (rs :: rest) := fun rs hrs => (h rs hrs).1.le
    rcases h rs mem_cons_self with ⟨hrs, hcap⟩
    have hrest : Ranged rest := (forall_mem_cons.1 h).2
    have hsized' : Sized rest := fun rs hrs => (hrest rs hrs).1.le
    have hroom := le_room hsized hk
    unfold drain
    by_cases hzero : budget ≤ 0
    · rw [if_pos hzero]
      refine ⟨rfl, ?_⟩
      show room k (rs :: rest) = _
      omega
    rw [if_neg hzero]
    have hhealth : (rs.availableReplicas : ℤ) ≤ rs.replicas := by
      by_contra hlag
      refine hu ⟨0, ?_, by omega⟩
      unfold unhealthyBeforeLagging
      rw [if_pos (by omega)]
      rfl
    -- what is left of the budget meets no lagging replica set either
    have hu' : ∀ left, budget - left ≤ rs.replicas - rs.availableReplicas → 0 ≤ left →
        (left = 0 ∨ budget - left = rs.replicas - rs.availableReplicas) →
        ¬ LaggingWithin left rest := by
      rintro left hle hleft hcase ⟨v, hv, hlt⟩
      have hnonneg := unhealthyBeforeLagging_nonneg (mem_def.1 hv)
      refine hu ⟨rs.replicas - rs.availableReplicas + v, ?_, by omega⟩
      unfold unhealthyBeforeLagging
      rw [if_neg (by omega), mem_def.1 hv]
      rfl
    have hassured : assuredOf rs = rs.availableReplicas := by
      unfold assuredOf
      omega
    by_cases hskip : rs.replicas = 0 ∨ unhealthy rs = 0
    · rw [if_pos hskip]
      have hleft := hu' budget (by omega) hpos (by omega)
      refine ⟨(ih hrest hpos hleft hk calls).1, ?_⟩
      show room k (rs :: (drain fails unhealthy rest budget calls).rss) = _
      rw [room_cons, room_cons, assured_cons]
      split
      · rw [(ih hrest hpos hleft (show 0 ≤ k - assuredOf rs by omega) calls).2]
        omega
      · have hnonneg := assured_nonneg hsized'
        omega
    rw [if_neg hskip, if_neg (by omega), hfails, if_neg (by decide)]
    have hpos' : 0 ≤ budget - min budget (unhealthy rs) := by omega
    have hleft := hu' (budget - min budget (unhealthy rs)) (by omega) hpos' (by omega)
    refine ⟨(ih hrest hpos' hleft hk (calls + 1)).1, ?_⟩
    have hassured' : assuredOf { rs with replicas := rs.replicas - min budget (unhealthy rs) } =
        rs.availableReplicas := by
      unfold assuredOf
      dsimp only
      omega
    show room k ({ rs with replicas := _ } :: (drain fails unhealthy rest _ _).rss) = _
    rw [room_cons, room_cons, assured_cons, hassured', hassured]
    split
    · rename_i hfits
      have hk' : 0 ≤ k - rs.availableReplicas := by omega
      have hroom' := le_room hsized' hk'
      rw [(ih hrest hpos' hleft hk' (calls + 1)).2]
      dsimp only
      omega
    · have hnonneg := assured_nonneg hsized'
      dsimp only
      omega

/-! ## Removing available replicas -/

/-- The second loop takes at most `k` assured pods if there is room, or if there are no more. -/
lemma assured_drain_replicas_iff (h : Sized rss) (hfails : ∀ n, fails n = false) (hk : 0 ≤ k)
    (budget : ℤ) (calls : ℕ) :
    assured rss - k ≤ assured (drain fails ReplicaSet.replicas rss budget calls).rss ↔
      budget ≤ room k rss ∨ assured rss ≤ k := by
  induction rss generalizing k budget calls with
  | nil =>
    refine ⟨fun _ => Or.inr hk, fun _ => ?_⟩
    show 0 - k ≤ 0
    omega
  | cons rs rest ih =>
    have hrs := h rs mem_cons_self
    have hrest : Sized rest := (forall_mem_cons.1 h).2
    have hnonneg := assured_nonneg hrest
    have hroom := room_nonneg h hk
    unfold drain
    by_cases hdone : budget ≤ 0
    · rw [if_pos hdone]
      refine ⟨fun _ => Or.inl (hdone.trans hroom), fun _ => ?_⟩
      show assured (rs :: rest) - k ≤ assured (rs :: rest)
      omega
    rw [if_neg hdone]
    by_cases hskip : rs.replicas = 0 ∨ rs.replicas = 0
    · rw [if_pos hskip]
      have hzero : assuredOf rs = 0 := by
        unfold assuredOf
        omega
      show assured _ - k ≤
        assured (rs :: (drain fails ReplicaSet.replicas rest budget calls).rss) ↔ _
      rw [assured_cons, assured_cons, hzero, zero_add, zero_add, ih hrest hk budget calls,
        room_cons, hzero, if_pos hk, sub_zero]
      omega
    rw [if_neg hskip, if_neg (by omega), hfails, if_neg (by decide)]
    show assured _ - k ≤ assured ({ rs with replicas := _ } ::
      (drain fails ReplicaSet.replicas rest _ _).rss) ↔ _
    rw [assured_cons, assured_cons, room_cons]
    have hlost := (drain_shrunk fails hrest (fun _ _ => le_refl _)
      (budget - min budget rs.replicas) (calls + 1)).assured_le
    -- `rs` may lose all its assured replicas, or it decides alone
    by_cases hfits : assuredOf rs ≤ k
    · have hk' : 0 ≤ k - assuredOf rs := by omega
      have hih := ih hrest hk' (budget - min budget rs.replicas) (calls + 1)
      have hroom' := room_nonneg hrest hk'
      rw [if_pos hfits]
      have hassured' : 0 ≤ assuredOf { rs with replicas := rs.replicas - min budget rs.replicas } :=
        assuredOf_nonneg (show 0 ≤ rs.replicas - min budget rs.replicas by omega)
      by_cases henough : budget ≤ rs.replicas
      · -- the budget ends here
        omega
      have hnone : assuredOf { rs with replicas := rs.replicas - min budget rs.replicas } = 0 := by
        unfold assuredOf
        dsimp only
        omega
      rw [hnone]
      omega
    · rw [if_neg hfits]
      by_cases henough : budget ≤ rs.replicas - assuredOf rs + k
      · have hsame := (ih hrest (le_refl 0) (budget - min budget rs.replicas) (calls + 1)).2
          (Or.inl ((show budget - min budget rs.replicas ≤ 0 by omega).trans
            (room_nonneg hrest (le_refl 0))))
        unfold assuredOf at *
        dsimp only
        omega
      · unfold assuredOf at *
        dsimp only
        omega

/-! ## Failing updates -/

/-- A loop that ends without an error had no failing update. -/
lemma drain_eq_of_err (fails : ℕ → Bool) {cap : ReplicaSet → ℤ} {calls : ℕ}
    (h : (drain fails cap rss budget calls).err = false) :
    drain fails cap rss budget calls = drain (fun _ => false) cap rss budget calls := by
  fun_induction drain fails cap rss budget calls with
  | case1 => rfl
  | case2 rs rest budget calls hdone => rw [drain, if_pos hdone]
  | case3 rs rest budget calls hleft hskip ih => rw [ih h, drain, if_neg hleft, if_pos hskip]
  | case4 => cases h
  | case5 => cases h
  | case6 rs rest budget calls hleft hskip hcap _ ih =>
    rw [ih h, drain, if_neg hleft, if_neg hskip, if_neg hcap, if_neg Bool.false_ne_true]

/-- With failing updates less is removed. -/
lemma drain_shrunk_of_fails (fails : ℕ → Bool) {cap : ReplicaSet → ℤ} (hsized : Sized rss)
    (hcap : ∀ rs ∈ rss, cap rs ≤ rs.replicas) (budget : ℤ) (calls : ℕ) :
    AllShrunk (drain fails cap rss budget calls).rss
      (drain (fun _ => false) cap rss budget calls).rss := by
  fun_induction drain fails cap rss budget calls with
  | case3 rs rest budget calls hleft hskip ih =>
    have hrest := ih (forall_mem_cons.1 hsized).2
      (forall_mem_cons.1 hcap).2
    rw [drain, if_neg hleft, if_pos hskip]
    exact .cons (Shrunk.refl (hsized rs mem_cons_self)) hrest
  | case6 rs rest budget calls hleft hskip hneg _ ih =>
    have hrest := ih (forall_mem_cons.1 hsized).2
      (forall_mem_cons.1 hcap).2
    have hle := hcap rs mem_cons_self
    rw [drain, if_neg hleft, if_neg hskip, if_neg hneg, if_neg Bool.false_ne_true]
    refine .cons (Shrunk.refl ?_) hrest
    show 0 ≤ rs.replicas - min budget (cap rs)
    omega
  | _ => exact drain_shrunk (fun _ => false) hsized hcap _ _

end

/-! ## One call -/

section

variable {d : Deployment} {s : Rollout} (h : InRange s.allRSs)

include h

lemma ranged_active : Ranged (sortByCreationTimestamp s.active) := by
  intro rs hrs
  rcases h.active rs hrs with ⟨hnonneg, hlt, havailable⟩
  refine ⟨?_, unhealthy_eq hnonneg hlt havailable⟩
  have hactive := of_mem_filter ((sort_perm s.active).mem_iff.1 hrs)
  simpa using hactive

lemma assured_inactive : assured s.inactive = 0 := by
  apply sum_eq_zero
  intro x hx
  rcases mem_map.1 hx with ⟨rs, hrs, rfl⟩
  rcases mem_filter.1 hrs with ⟨hmem, hle⟩
  have hnonneg := h.sized rs (mem_append_left _ hmem)
  have hle' : ¬ 0 < rs.replicas := by simpa using hle
  unfold assuredOf
  omega

omit h in
lemma assured_allRSs (s : Rollout) : assured s.allRSs = assured s.oldRSs + assuredOf s.newRS := by
  unfold Rollout.allRSs
  rw [assured_append]
  show _ + (assuredOf s.newRS + 0) = _
  ring

lemma assured_before : assured s.allRSs =
    assured (sortByCreationTimestamp s.active) + assuredOf s.newRS := by
  rw [assured_allRSs, ← assured_perm s.active_inactive_perm, assured_append, assured_inactive h,
    assured_perm (sort_perm s.active), add_zero]

lemma assured_after (fails : ℕ → Bool) :
    assured (s.reconcileOld d fails).allRSs =
      assured (s.drainOld d fails) + assuredOf s.newRS := by
  rw [assured_allRSs, assured_perm (reconcileOld_perm h fails), assured_append,
    assured_inactive h, add_zero]
  rfl

/-- The most is removed if no update fails. -/
lemma assured_drainOld_le (fails : ℕ → Bool) :
    assured (s.drainOld d fun _ => false) ≤ assured (s.drainOld d fails) := by
  have hranged := ranged_active h
  have hshrunk := (drainOld_shrunk (d := d) h fun _ => false).assured_le
  unfold Rollout.drainOld at hshrunk ⊢
  by_cases hsettle : s.Settled d
  · rw [if_pos hsettle, if_pos hsettle]
  rw [if_neg hsettle] at hshrunk
  rw [if_neg hsettle, if_neg hsettle]
  by_cases herr : (drain fails unhealthy (sortByCreationTimestamp s.active)
      (s.maxScaledDown d) 0).err = true
  · rw [if_pos herr, assured_drain_unhealthy hranged]
    exact hshrunk
  rw [if_neg herr]
  have hsame := drain_eq_of_err fails (Bool.eq_false_iff.2 herr)
  rw [hsame] at herr ⊢
  rw [if_neg herr]
  have hclean := drain_shrunk (fun _ => false) h.active.sized
    (fun rs hrs => (h.active.unhealthy_fits rs hrs).le) (s.maxScaledDown d) 0
  exact (drain_shrunk_of_fails fails hclean.sized (fun _ _ => le_refl _) _ _).assured_le

/-- How much one call takes if no update fails. -/
lemma assured_drainOld_iff :
    assured (sortByCreationTimestamp s.active) - s.allowance d ≤
      assured (s.drainOld d fun _ => false) ↔ s.Spared d := by
  have hk : 0 ≤ s.allowance d := le_max_left _ _
  have hranged := ranged_active h
  unfold Rollout.drainOld Rollout.Spared
  dsimp only
  by_cases hsettle : s.Settled d
  · rw [if_pos hsettle]
    exact ⟨fun _ => Or.inl hsettle, fun _ => by omega⟩
  rw [if_neg hsettle, or_iff_right hsettle]
  by_cases hlag : LaggingWithin (s.maxScaledDown d) (sortByCreationTimestamp s.active)
  · rcases id hlag with ⟨u, hu, hlt⟩
    have herr := drain_unhealthy_err hranged (fun _ => rfl) (mem_def.1 hu) hlt 0
    rw [if_pos herr, assured_drain_unhealthy hranged]
    exact ⟨fun _ => Or.inl hlag, fun _ => by omega⟩
  rw [or_iff_right hlag]
  have hbudget : 0 ≤ s.maxScaledDown d := by
    have hpos := (not_or.1 hsettle).2
    omega
  rcases drain_unhealthy_room hranged (fun _ => rfl) hbudget hlag hk 0 with ⟨herr, hroom⟩
  have hclean := drain_shrunk (fun _ => false) h.active.sized
    (fun rs hrs => (h.active.unhealthy_fits rs hrs).le) (s.maxScaledDown d) 0
  have hloop := assured_drain_replicas_iff hclean.sized (fun _ => rfl) hk (s.totalScaleDownCount d)
    (drain (fun _ => false) unhealthy (sortByCreationTimestamp s.active) (s.maxScaledDown d) 0).calls
  rw [assured_drain_unhealthy hranged, hroom] at hloop
  rw [herr, if_neg (by decide), hloop]
  omega

end

/-- One call of `reconcileOldReplicaSets`, whatever updates fail, leaves as many assured pods as it
should exactly if `Spared` holds before it. -/
theorem maxUnavailable_respected_iff (d : Deployment) (s : Rollout) (h : InRange s.allRSs) :
    (∀ fails, min (d.replicas - d.maxUnavailablePods) (assured s.allRSs) ≤
      assured (s.reconcileOld d fails).allRSs) ↔ s.Spared d := by
  have hbefore := assured_before h
  have hallowance : min (d.replicas - d.maxUnavailablePods) (assured s.allRSs) =
      assured s.allRSs - s.allowance d := by
    unfold Rollout.allowance
    omega
  rw [← assured_drainOld_iff h, hallowance, hbefore]
  constructor
  · intro hall
    have hnone := hall fun _ => false
    rw [assured_after h] at hnone
    omega
  · intro hnone fails
    have hle := assured_drainOld_le (d := d) h fails
    rw [assured_after h]
    omega

/-- Ten replicas, of which seven have to be available. -/
def tenReplicas : Deployment :=
  { replicas := 10, strategy := .rollingUpdate, maxSurge := some (.int 5),
    maxUnavailable := some (.int 3), replicas_nonneg := by decide, replicas_lt := by decide }

/-- No replica of the older set is available, and the other one has just been scaled down to five:
its ten replicas are still counted as available. -/
def unhealthyAndLagging : Rollout :=
  ⟨⟨"new", 2, 0, 0⟩, [⟨"unhealthy", 0, 10, 0⟩, ⟨"lagging", 1, 5, 10⟩]⟩

/-- Of the five assured pods one is lost, although seven are needed. -/
theorem availability_lost :
    assured unhealthyAndLagging.allRSs = 5 ∧
      assured (unhealthyAndLagging.reconcileOld tenReplicas fun _ => false).allRSs = 4 ∧
      ¬ (min (tenReplicas.replicas - tenReplicas.maxUnavailablePods)
          (assured unhealthyAndLagging.allRSs) ≤
        assured (unhealthyAndLagging.reconcileOld tenReplicas fun _ => false).allRSs) := by
  decide +kernel

/-- Without a lagging set the call leaves enough pods; in the state above it does not. -/
theorem maxUnavailable_respected_iff_lagging :
    let respected := fun s : Rollout => InRange s.allRSs ∧
      ∀ fails, min (tenReplicas.replicas - tenReplicas.maxUnavailablePods) (assured s.allRSs) ≤
        assured (s.reconcileOld tenReplicas fails).allRSs
    respected ⟨⟨"new", 2, 5, 2⟩, [⟨"unhealthy", 0, 4, 1⟩, ⟨"old", 1, 6, 6⟩]⟩ ∧
      InRange unhealthyAndLagging.allRSs ∧ ¬ respected unhealthyAndLagging := by
  intro respected
  refine ⟨⟨by decide, ?_⟩, by decide, ?_⟩
  · exact (maxUnavailable_respected_iff tenReplicas _ (by decide)).2 (by decide +kernel)
  · rintro ⟨-, hall⟩
    exact absurd ((maxUnavailable_respected_iff tenReplicas _ (by decide)).1 hall) (by decide +kernel)

end Kubernetes.Controllers
