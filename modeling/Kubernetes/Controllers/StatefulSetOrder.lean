import Kubernetes.Controllers.StatefulSet

/-! # Ordered updates of a stateful set

With ordered pod management an update changes the pods of one ordinal at most, and each of its
requests has one of four reasons (`Reason`): a failed pod is replaced or a missing one created, when
all pods before it are healthy; the last pod beyond the replicas is deleted, when all replicas are
healthy; or a replica is deleted that is not at the update revision, when there is no pod beyond the
replicas and those after it are updated. `updateWith_reason` follows the three loops;
`ordered_update_respects_ordinals` is what this says about the requests.
-/

namespace Kubernetes.Controllers.StatefulSetControl

open Bool Decimal Kubernetes.EarlyReturn List

variable {env : Env} {pods : List Pod}

/-! ## Ordinals -/

variable {pod : Pod}

/-- The ordinal in a name that ends with a number. -/
lemma getOrdinal_of_name {base : Str} {n : ℕ} (hname : pod.name = base ++ '-' :: itoa n)
    (hn : n < 2 ^ 31) : getOrdinal pod = n := by
  have hreverse : pod.name.reverse = (itoa n).reverse ++ '-' :: base.reverse := by
    rw [hname]
    simp
  have hin : ∀ a ∈ (itoa n).reverse, a.isDigit = true :=
    fun a ha => allDigits_itoa n a (mem_reverse.1 ha)
  have hstop : ∀ a ∈ ('-' :: base.reverse).head?, a.isDigit = false := by
    intro a ha
    cases ha
    rfl
  rcases exists_cons_of_ne_nil (itoa_ne_nil n) with ⟨d, ds, hdigits⟩
  unfold getOrdinal getParentNameAndOrdinal
  dsimp only
  rw [hreverse, takeWhile_append_stop hin hstop, dropWhile_append_stop hin hstop,
    reverse_reverse, ofDigits_itoa, if_pos hn, hdigits]
  rfl

variable {i : ℕ}

lemma getOrdinal_placeholder (hi : i < 2 ^ 31) : getOrdinal (placeholder env i) = i := by
  unfold placeholder newVersionedStatefulSetPod
  split
  · exact getOrdinal_of_name rfl hi
  · exact getOrdinal_of_name rfl hi

lemma phase_placeholder (i : ℕ) : (placeholder env i).phase = .empty := by
  unfold placeholder newVersionedStatefulSetPod
  split <;> rfl

/-! ## The lists -/

variable (env pods) in
lemma length_slots : (slots env pods).length = env.set.replicas := by
  have hfold : ∀ (pods : List Pod) (s : List (Option Pod)),
      (pods.foldl (placePod env) s).length = s.length := by
    intro pods
    induction pods with
    | nil => exact fun s => rfl
    | cons pod pods ih =>
      intro s
      rw [foldl_cons, ih]
      unfold placePod
      split
      · exact length_set
      · rfl
  unfold slots
  rw [hfold, length_replicate]

lemma slot_mem (h : (slots env pods)[i]? = some (some pod)) :
    pod ∈ pods ∧ getOrdinal pod = i := by
  have hfold : ∀ (seen : List Pod), (∀ p ∈ seen, p ∈ pods) →
      ∀ (i : ℕ) (pod : Pod), (seen.foldl (placePod env) (List.replicate env.set.replicas none))[i]? =
        some (some pod) → pod ∈ pods ∧ getOrdinal pod = i := by
    intro seen
    induction seen using reverseRecOn with
    | nil =>
      intro _ i pod h
      rw [foldl_nil, getElem?_replicate] at h
      split at h <;> cases h
    | append_singleton seen p ih =>
      intro hseen i pod h
      have ih' := ih fun q hq => hseen q (mem_append_left _ hq)
      rw [foldl_append, foldl_cons, foldl_nil] at h
      unfold placePod at h
      split_ifs at h with hord
      · rw [getElem?_set] at h
        split at h
        · rename_i heq
          split at h
          · cases h
            exact ⟨hseen p (mem_append_right _ (mem_singleton_self _)), by omega⟩
          · cases h
        · exact ih' i pod h
      · exact ih' i pod h
  exact hfold pods (fun p hp => hp) i pod h

/-- If ordinals are distinct, every pod with an ordinal of a replica is in its slot. -/
lemma slot_of_mem (hnodup : (pods.map getOrdinal).Nodup) (hmem : pod ∈ pods)
    (hnonneg : 0 ≤ getOrdinal pod) (hlt : getOrdinal pod < env.set.replicas) :
    (slots env pods)[(getOrdinal pod).toNat]? = some (some pod) := by
  unfold slots
  have hlen : ∀ seen : List Pod, (seen.foldl (placePod env)
      (List.replicate env.set.replicas none)).length = env.set.replicas :=
    fun seen => length_slots env seen
  induction pods using reverseRecOn with
  | nil => exact absurd hmem not_mem_nil
  | append_singleton seen p ih =>
    rw [map_append, nodup_append] at hnodup
    rw [foldl_append, foldl_cons, foldl_nil]
    rcases mem_append.1 hmem with hseen | hlast
    · have hne : getOrdinal pod ≠ getOrdinal p :=
        hnodup.2.2 _ (mem_map_of_mem hseen) _ (by simp)
      unfold placePod
      split
      · rw [getElem?_set_ne (by omega)]
        exact ih hnodup.1 hseen
      · exact ih hnodup.1 hseen
    · rw [mem_singleton.1 hlast] at hnonneg hlt ⊢
      rw [placePod, if_pos ⟨hnonneg, hlt⟩, getElem?_set_self]
      rw [hlen]
      omega

/-- The pod of an ordinal: the one there is, or one to create. -/
def replicaAt (env : Env) (pods : List Pod) (i : ℕ) : Pod :=
  ((slots env pods)[i]?.getD none).getD (placeholder env i)

lemma replicas_eq : replicas env pods =
    (List.range env.set.replicas).map fun i => (i, replicaAt env pods i) := by
  unfold replicas
  apply ext_getElem?
  intro i
  rw [getElem?_map, getElem?_map, getElem?_zipIdx, Nat.zero_add]
  by_cases hi : i < env.set.replicas
  · rw [getElem?_range hi]
    have hlen : i < (slots env pods).length := by
      rw [length_slots]
      exact hi
    have hat : replicaAt env pods i = ((slots env pods)[i]).getD (placeholder env i) := by
      unfold replicaAt
      rw [getElem?_eq_getElem hlen]
      rfl
    rw [getElem?_eq_getElem hlen, Option.map_some, Option.map_some, Option.map_some, hat]
  · rw [getElem?_eq_none (by rw [length_slots]; omega),
      getElem?_eq_none (by rw [length_range]; omega)]
    rfl

variable {r : ℕ × Pod}

lemma mem_replicas :
    r ∈ replicas env pods ↔ r.1 < env.set.replicas ∧ r.2 = replicaAt env pods r.1 := by
  rw [replicas_eq, mem_map]
  constructor
  · rintro ⟨i, hi, rfl⟩
    exact ⟨mem_range.1 hi, rfl⟩
  · rintro ⟨hi, hpod⟩
    exact ⟨r.1, mem_range.2 hi, by rw [← hpod]⟩

variable (env pods) in
lemma replicas_sorted : (replicas env pods).Pairwise fun r r' => r.1 < r'.1 := by
  rw [replicas_eq, pairwise_map]
  exact pairwise_lt_range

lemma replica_mem (hcreate : (replicaAt env pods i).phase ≠ .empty) :
    replicaAt env pods i ∈ pods ∧ getOrdinal (replicaAt env pods i) = i := by
  unfold replicaAt at hcreate ⊢
  cases hslot : (slots env pods)[i]? with
  | none =>
    rw [hslot] at hcreate
    exact absurd (phase_placeholder i) hcreate
  | some slot =>
    cases slot with
    | none =>
      rw [hslot] at hcreate
      exact absurd (phase_placeholder i) hcreate
    | some pod => exact slot_mem hslot

lemma getOrdinal_replicaAt (hi : i < env.set.replicas) :
    getOrdinal (replicaAt env pods i) = i := by
  unfold replicaAt
  cases hslot : (slots env pods)[i]? with
  | none => exact getOrdinal_placeholder (hi.trans env.set.replicas_lt)
  | some slot =>
    cases slot with
    | none => exact getOrdinal_placeholder (hi.trans env.set.replicas_lt)
    | some pod => exact (slot_mem hslot).2

lemma replicaAt_of_mem (hnodup : (pods.map getOrdinal).Nodup) (hmem : pod ∈ pods)
    (hnonneg : 0 ≤ getOrdinal pod) (hlt : getOrdinal pod < env.set.replicas) :
    replicaAt env pods (getOrdinal pod).toNat = pod := by
  unfold replicaAt
  rw [slot_of_mem hnodup hmem hnonneg hlt]
  rfl

/-! ## Reasons -/

/-- Every ordinal below a bound has a healthy pod. -/
def HealthyBelow (pods : List Pod) (bound : ℤ) : Prop :=
  ∀ j : ℕ, (j : ℤ) < bound → ∃ q ∈ pods, getOrdinal q = j ∧ isHealthy q = true

/-- Why a request is made for the pod of an ordinal. -/
inductive Reason (env : Env) (pods : List Pod) (ordinal : ℤ) : Request → Prop
  | update (pod : Pod) : Reason env pods ordinal (.update pod)
  | create {pod : Pod} : getOrdinal pod = ordinal → HealthyBelow pods ordinal →
      Reason env pods ordinal (.create pod)
  | replace {pod : Pod} : pod ∈ pods → getOrdinal pod = ordinal → ordinal < env.set.replicas →
      isFailed pod = true → Reason env pods ordinal (.delete pod)
  | scaleDown {pod : Pod} : pod ∈ pods → getOrdinal pod = ordinal → env.set.replicas ≤ ordinal →
      (∀ q ∈ pods, getOrdinal q ≤ ordinal) → HealthyBelow pods env.set.replicas →
      Reason env pods ordinal (.delete pod)
  | rollOut {pod : Pod} : pod ∈ pods → getOrdinal pod = ordinal → ordinal < env.set.replicas →
      (∀ q ∈ pods, getOrdinal q < env.set.replicas) → env.set.partition.getD 0 ≤ ordinal →
      (∀ q ∈ pods, ordinal < getOrdinal q → q.revision = env.updateRevision ∧ isHealthy q = true) →
      HealthyBelow pods env.set.replicas → Reason env pods ordinal (.delete pod)

/-- All requests have a reason with one ordinal. -/
def Reasoned (env : Env) (pods : List Pod) (outcome : Outcome) : Prop :=
  ∃ ordinal, ∀ r ∈ outcome.requests, Reason env pods ordinal r

/-- Only updates, which change neither the phase nor the existence of a pod. -/
def OnlyUpdates (requests : List Request) : Prop := ∀ r ∈ requests, ∃ pod, r = .update pod

variable {requests : List Request}

lemma OnlyUpdates.reason (h : OnlyUpdates requests) (ordinal : ℤ) :
    ∀ r ∈ requests, Reason env pods ordinal r := by
  intro r hr
  rcases h r hr with ⟨pod, rfl⟩
  exact .update pod

variable {p : Progress}

/-- A request is added to those there are, whether it fails or not. -/
lemma request_reasoned {r : Request} {ordinal : ℤ}
    (h : ∀ r' ∈ p.requests ++ [r], Reason env pods ordinal r') :
    Post (fun p' => p'.requests = p.requests ++ [r]) (Reasoned env pods) (request env p r) := by
  unfold request
  split
  · exact ⟨ordinal, h⟩
  · rfl

lemma reason_snoc {r : Request} {ordinal : ℤ} (h : ∀ r ∈ requests, Reason env pods ordinal r)
    (hr : Reason env pods ordinal r) :
    ∀ r' ∈ requests ++ [r], Reason env pods ordinal r' :=
  forall_mem_append.2 ⟨h, forall_mem_singleton.2 hr⟩

/-! ## The loop over replicas -/

/-- What the loop over replicas has passed: it has seen healthy replicas, and has made no request
but updates. -/
structure Passed (seen : List (ℕ × Pod)) (state : Progress × List (ℕ × Pod)) : Prop where
  replicas : state.2 = seen
  healthy : ∀ r ∈ seen, isHealthy r.2 = true
  requests : OnlyUpdates state.1.requests

lemma isHealthy_iff :
    isHealthy pod = true ↔ isRunningAndReady pod = true ∧ isTerminating pod = false := by
  unfold isHealthy
  rw [and_eq_true, not_eq_true']

lemma phase_of_healthy (h : isHealthy pod = true) : pod.phase = .running := by
  have hready := (isHealthy_iff.1 h).1
  unfold isRunningAndReady at hready
  rw [and_eq_true, decide_eq_true_eq] at hready
  exact hready.1

/-- A healthy replica is one of the pods. -/
lemma mem_of_healthy (h : isHealthy (replicaAt env pods i) = true) :
    replicaAt env pods i ∈ pods ∧ getOrdinal (replicaAt env pods i) = i := by
  apply replica_mem
  rw [phase_of_healthy h]
  exact nofun

variable {seen rest : List (ℕ × Pod)}

/-- What a loop over sorted replicas has not seen comes after the one that it has reached. -/
lemma mem_seen {R : ℕ × Pod → ℕ × Pod → Prop} {r' : ℕ × Pod}
    (hsorted : (seen ++ r :: rest).Pairwise R) (hmem : r' ∈ seen ++ r :: rest) (hne : r' ≠ r)
    (hnot : ¬R r r') : r' ∈ seen := by
  rcases mem_append.1 hmem with hmem | hmem
  · exact hmem
  have htail := (pairwise_cons.1 (pairwise_append.1 hsorted).2.1).1
  exact absurd (htail r' ((mem_cons.1 hmem).resolve_left hne)) hnot

/-- All replicas before one that the loop has reached are healthy pods. -/
lemma healthyBelow_of_seen (hsplit : replicas env pods = seen ++ r :: rest)
    (hhealth : ∀ r ∈ seen, isHealthy r.2 = true) : HealthyBelow pods r.1 := by
  intro j hj
  have hr : r ∈ replicas env pods := by
    rw [hsplit]
    exact mem_append_right _ mem_cons_self
  have hjr : j < r.1 := by omega
  have hmem : (j, replicaAt env pods j) ∈ replicas env pods :=
    mem_replicas.2 ⟨hjr.trans (mem_replicas.1 hr).1, rfl⟩
  have hsorted := replicas_sorted env pods
  rw [hsplit] at hmem hsorted
  have hpod := hhealth _ (mem_seen hsorted hmem (fun heq => hjr.ne (congrArg Prod.fst heq))
    (Nat.not_lt.2 hjr.le))
  exact ⟨_, (mem_of_healthy hpod).1, (mem_of_healthy hpod).2, hpod⟩

/-- What a replica is after a failed one was replaced: the replica as it was, or a new pod. -/
structure Replaced (env : Env) (pods : List Pod) (i : ℕ) (result : Progress × Pod) : Prop where
  requests : ∀ r ∈ result.1.requests, Reason env pods i r
  ordinal : getOrdinal result.2 = i
  same : isCreated result.2 = true →
    result.2 = replicaAt env pods i ∧ OnlyUpdates result.1.requests

lemma replaceFailed_spec (hi : i < env.set.replicas) (hrequests : OnlyUpdates p.requests) :
    Post (Replaced env pods i) (Reasoned env pods)
      (replaceFailed env p i (replicaAt env pods i)) := by
  unfold replaceFailed
  split
  · rename_i hfailed
    have hphase : (replicaAt env pods i).phase = .failed := of_decide_eq_true hfailed
    have hne : (replicaAt env pods i).phase ≠ .empty := by
      rw [hphase]
      exact nofun
    have hreason := reason_snoc (hrequests.reason i)
      (.replace (replica_mem hne).1 (replica_mem hne).2 (Int.ofNat_lt.2 hi) hfailed)
    apply (request_reasoned hreason).bind
    intro p' hp'
    refine ⟨?_, getOrdinal_placeholder (hi.trans env.set.replicas_lt), ?_⟩
    · rw [hp']
      exact hreason
    · intro hcreate
      unfold isCreated at hcreate
      rw [phase_placeholder] at hcreate
      cases hcreate
  · exact ⟨hrequests.reason i, getOrdinal_replicaAt hi, fun _ => ⟨rfl, hrequests⟩⟩

/-- A round after that, with ordered management. -/
lemma examineReplica_spec (hburst : allowsBurst env.set = false) (hbelow : HealthyBelow pods i)
    (hseen : ∀ r ∈ seen, isHealthy r.2 = true) {result : Progress × Pod}
    (h : Replaced env pods i result) :
    Post (Passed (seen ++ [(i, replicaAt env pods i)]))
      (Reasoned env pods) (examineReplica env seen i result) := by
  rcases result with ⟨p, pod⟩
  unfold examineReplica
  rw [hburst, Bool.not_false]
  dsimp only
  split
  · -- the pod is created, and this is the last request
    have hreason := reason_snoc h.requests (.create h.ordinal hbelow)
    apply (request_reasoned hreason).bind
    intro p' hp'
    refine ⟨i, ?_⟩
    dsimp only [Progress.done]
    rw [hp']
    exact hreason
  rename_i hcreate
  rw [Bool.not_eq_true, Bool.not_eq_false'] at hcreate
  rcases h.same hcreate with ⟨rfl, honly⟩
  split
  · exact ⟨i, h.requests⟩
  rename_i hterm
  split
  · exact ⟨i, h.requests⟩
  rename_i hready
  rw [Bool.and_true, Bool.not_eq_true] at hterm
  rw [Bool.and_true, Bool.not_eq_true, Bool.not_eq_false'] at hready
  have hhealth : ∀ r ∈ seen ++ [(i, replicaAt env pods i)], isHealthy r.2 = true :=
    forall_mem_append.2 ⟨hseen, forall_mem_singleton.2 (isHealthy_iff.2 ⟨hready, hterm⟩)⟩
  split
  · exact ⟨rfl, hhealth, honly⟩
  have honly' : OnlyUpdates (p.requests ++ [.update (replicaAt env pods i)]) :=
    forall_mem_append.2 ⟨honly, forall_mem_singleton.2 ⟨_, rfl⟩⟩
  apply (request_reasoned (honly'.reason i)).bind
  intro p' hp'
  refine ⟨rfl, hhealth, ?_⟩
  rw [hp']
  exact honly'

/-- A round of the loop over replicas, with ordered management. -/
lemma replicaRound_spec (hburst : allowsBurst env.set = false) {state : Progress × List (ℕ × Pod)}
    (hsplit : replicas env pods = seen ++ r :: rest) (hstate : Passed seen state) :
    Post (Passed (seen ++ [r])) (Reasoned env pods) (replicaRound env state r) := by
  have hmem : r ∈ replicas env pods := by
    rw [hsplit]
    exact mem_append_right _ mem_cons_self
  have hbelow := healthyBelow_of_seen hsplit hstate.healthy
  rcases state with ⟨p, seen'⟩
  cases hstate.replicas
  rcases r with ⟨i, pod⟩
  rcases mem_replicas.1 hmem with ⟨hi, hpod⟩
  dsimp only at hi hpod
  subst hpod
  apply Post.bind (replaceFailed_spec hi hstate.requests)
  intro result hresult
  exact examineReplica_spec hburst hbelow hstate.healthy hresult

/-! ## The loop over condemned pods -/

lemma mem_condemned :
    pod ∈ condemned env pods ↔ pod ∈ pods ∧ env.set.replicas ≤ getOrdinal pod := by
  unfold condemned
  rw [mem_insertionSort, mem_filter, decide_eq_true_eq]

variable (env pods) in
lemma condemned_sorted :
    (condemned env pods).Pairwise fun a b => getOrdinal a ≤ getOrdinal b := by
  unfold condemned
  refine @pairwise_insertionSort _ _ _ ⟨?_⟩ ⟨?_⟩ _
  · exact fun a b => le_total (getOrdinal a) (getOrdinal b)
  · exact fun a b c hab hbc => le_trans hab hbc

/-- The first pod of the loop over condemned pods has the highest ordinal of all. -/
lemma condemnedTargets_head {t : ℕ × Pod} (h : condemnedTargets env pods = t :: rest) :
    t.2 ∈ pods ∧ env.set.replicas ≤ getOrdinal t.2 ∧
      ∀ q ∈ pods, getOrdinal q ≤ getOrdinal t.2 := by
  have hpods : (condemnedTargets env pods).map Prod.snd = (condemned env pods).reverse := by
    unfold condemnedTargets
    rw [map_reverse, map_map]
    congr 1
    exact zipIdx_map_fst 0 _
  rw [h, map_cons] at hpods
  have hmem : t.2 ∈ condemned env pods := by
    rw [← mem_reverse, ← hpods]
    exact mem_cons_self
  have hsorted := pairwise_reverse.2 (condemned_sorted env pods)
  rw [← hpods, pairwise_cons] at hsorted
  rcases mem_condemned.1 hmem with ⟨hmem, hle⟩
  refine ⟨hmem, hle, ?_⟩
  intro q hq
  by_cases hcondemned : env.set.replicas ≤ getOrdinal q
  · have hq' : q ∈ t.2 :: rest.map Prod.snd := by
      rw [hpods, mem_reverse]
      exact mem_condemned.2 ⟨hq, hcondemned⟩
    rcases mem_cons.1 hq' with rfl | hq'
    · exact le_rfl
    · exact hsorted.1 q hq'
  · omega

/-- With ordered management the loop over condemned pods ends in its first round. -/
lemma condemned_spec (hburst : allowsBurst env.set = false) (honly : OnlyUpdates p.requests)
    (hhealth : HealthyBelow pods env.set.replicas) (firstUnhealthy : Option Place) :
    Post (fun p' => p' = p ∧ ∀ q ∈ pods, getOrdinal q < env.set.replicas) (Reasoned env pods)
      ((condemnedTargets env pods).foldlM (condemnedRound env firstUnhealthy) p) := by
  cases htargets : condemnedTargets env pods with
  | nil =>
    refine ⟨rfl, ?_⟩
    intro q hq
    by_contra hle
    have hmem : q ∈ condemned env pods := mem_condemned.2 ⟨hq, not_lt.1 hle⟩
    have hnil : condemned env pods = [] := by
      have hlen := congrArg List.length htargets
      unfold condemnedTargets at hlen
      rw [length_reverse, length_map, length_zipIdx] at hlen
      exact length_eq_zero_iff.1 hlen
    rw [hnil] at hmem
    exact absurd hmem not_mem_nil
  | cons t rest =>
    rcases condemnedTargets_head htargets with ⟨hmem, hle, hmax⟩
    have hround : Post (fun _ => False) (Reasoned env pods)
        (condemnedRound env firstUnhealthy p t) := by
      unfold condemnedRound
      rw [hburst, Bool.not_false]
      dsimp only
      split
      · exact ⟨0, honly.reason 0⟩
      split
      · exact ⟨0, honly.reason 0⟩
      have hreason := reason_snoc (honly.reason (getOrdinal t.2))
        (.scaleDown hmem rfl hle hmax hhealth)
      apply (request_reasoned hreason).bind
      intro p' hp'
      refine ⟨getOrdinal t.2, ?_⟩
      dsimp only [Progress.done]
      rw [hp']
      exact hreason
    rw [foldlM_cons]
    apply hround.bind
    intro _ hfalse
    exact hfalse.elim

/-! ## The loop that updates replicas -/

variable (env pods) in
lemma updateTargets_sorted : (updateTargets env (replicas env pods)).Pairwise
    fun r r' => r'.1 < r.1 := by
  unfold updateTargets
  rw [pairwise_reverse]
  exact (replicas_sorted env pods).filter _

lemma mem_updateTargets : r ∈ updateTargets env (replicas env pods) ↔
    r ∈ replicas env pods ∧ env.set.partition.getD 0 ≤ r.1 := by
  unfold updateTargets
  rw [mem_reverse, mem_filter, decide_eq_true_eq]

/-- Targets with a higher ordinal have been seen. -/
lemma seen_of_lt {r' : ℕ × Pod}
    (hsplit : updateTargets env (replicas env pods) = seen ++ r :: rest)
    (hmem : r' ∈ updateTargets env (replicas env pods)) (hlt : r.1 < r'.1) : r' ∈ seen := by
  have hsorted := updateTargets_sorted env pods
  rw [hsplit] at hmem hsorted
  exact mem_seen hsorted hmem (fun heq => hlt.ne' (congrArg Prod.fst heq)) (Nat.not_lt.2 hlt.le)

section

variable (hnodup : (pods.map getOrdinal).Nodup) (honly : OnlyUpdates p.requests)
  (hhealth : HealthyBelow pods env.set.replicas)
  (hall : ∀ r ∈ replicas env pods, isHealthy r.2 = true)
  (hnone : ∀ q ∈ pods, getOrdinal q < env.set.replicas)

include hnodup honly hhealth hall hnone

/-- A round of the loop that updates replicas, when all are healthy. -/
lemma updateRound_spec (hsplit : updateTargets env (replicas env pods) = seen ++ r :: rest)
    (hseen : ∀ r ∈ seen, r.2.revision = env.updateRevision) :
    Post (fun p' => p' = p ∧ ∀ r' ∈ seen ++ [r], r'.2.revision = env.updateRevision)
      (Reasoned env pods) (updateRound env p r) := by
  have hmem : r ∈ updateTargets env (replicas env pods) := by
    rw [hsplit]
    exact mem_append_right _ mem_cons_self
  rcases mem_updateTargets.1 hmem with ⟨hreplica, hpartition⟩
  have hr := hall r hreplica
  rcases r with ⟨i, pod⟩
  rcases mem_replicas.1 hreplica with ⟨hi, hpod⟩
  dsimp only at hi hpod hpartition hr
  have hpodMem : pod ∈ pods ∧ getOrdinal pod = i := by
    rw [hpod] at hr ⊢
    exact mem_of_healthy hr
  unfold updateRound
  dsimp only
  split
  · -- pods with a higher ordinal are targets that were seen
    have hhigher : ∀ q ∈ pods, (i : ℤ) < getOrdinal q →
        q.revision = env.updateRevision ∧ isHealthy q = true := by
      intro q hq hlt
      have hat := replicaAt_of_mem hnodup hq (by omega) (hnone q hq)
      have hq' : ((getOrdinal q).toNat, q) ∈ replicas env pods :=
        mem_replicas.2 ⟨by have := hnone q hq; dsimp only; omega, hat.symm⟩
      refine ⟨?_, hall _ hq'⟩
      have htarget := mem_updateTargets.2 ⟨hq', by dsimp only; omega⟩
      exact hseen _ (seen_of_lt hsplit htarget (by dsimp only; omega))
    have hreason := reason_snoc (honly.reason i)
      (.rollOut hpodMem.1 hpodMem.2 (Int.ofNat_lt.2 hi) hnone hpartition hhigher hhealth)
    apply Post.bind (request_reasoned
      (p := ⟨{ p.status with currentReplicas := p.status.currentReplicas - 1 }, p.requests⟩) hreason)
    intro p' hp'
    refine ⟨i, ?_⟩
    dsimp only [Progress.done]
    rw [hp']
    exact hreason
  · rename_i hrev
    rw [hr, Bool.not_true]
    refine ⟨rfl, ?_⟩
    intro r' hr'
    rcases mem_append.1 hr' with hr' | hr'
    · exact hseen r' hr'
    rw [mem_singleton.1 hr']
    by_contra hne
    apply hrev
    refine ⟨hne, ?_⟩
    rw [(isHealthy_iff.1 hr).2]
    rfl

lemma updateReplicas_spec :
    Post (fun p' => OnlyUpdates p'.requests) (Reasoned env pods)
      (updateReplicas env (replicas env pods) p) := by
  unfold updateReplicas
  split
  · exact honly
  have hloop : Post (fun p' => p' = p ∧ ∀ r ∈ updateTargets env (replicas env pods),
      r.2.revision = env.updateRevision) (Reasoned env pods)
      ((updateTargets env (replicas env pods)).foldlM (updateRound env) p) := by
    apply foldlM_rule fun (seen : List (ℕ × Pod)) p' =>
      p' = p ∧ ∀ r ∈ seen, r.2.revision = env.updateRevision
    · exact ⟨rfl, fun r hr => absurd hr not_mem_nil⟩
    · rintro seen r rest p' hsplit ⟨rfl, hseen⟩
      exact updateRound_spec hnodup honly hhealth hall hnone hsplit hseen
  apply hloop.bind
  rintro p' ⟨rfl, -⟩
  split
  · exact ⟨0, honly.reason 0⟩
  · exact honly

end

/-! ## An update -/

/-- All requests of an ordered update have a reason with one ordinal. -/
theorem updateWith_reason (hburst : allowsBurst env.set = false)
    (hnodup : (pods.map getOrdinal).Nodup) : Reasoned env pods (updateWith env pods) := by
  have hnil : OnlyUpdates [] := fun r hr => absurd hr not_mem_nil
  have hpods : Post (fun p' => OnlyUpdates p'.requests) (Reasoned env pods)
      (updatePods env pods ⟨initialStatus env pods, []⟩) := by
    have hloop : Post (Passed (replicas env pods)) (Reasoned env pods)
        ((replicas env pods).foldlM (replicaRound env) (⟨initialStatus env pods, []⟩, [])) := by
      apply foldlM_rule Passed
      · exact ⟨rfl, fun r hr => absurd hr not_mem_nil, hnil⟩
      · intro seen r rest state hsplit hstate
        exact replicaRound_spec hburst hsplit hstate
    unfold updatePods
    apply hloop.bind
    rintro ⟨p, replicas'⟩ hpassed
    have hreplicas : replicas' = replicas env pods := hpassed.replicas
    subst hreplicas
    have hhealth : HealthyBelow pods env.set.replicas := by
      intro j hj
      have hmem : (j, replicaAt env pods j) ∈ replicas env pods :=
        mem_replicas.2 ⟨by dsimp only; omega, rfl⟩
      have hpod := hpassed.healthy _ hmem
      exact ⟨_, (mem_of_healthy hpod).1, (mem_of_healthy hpod).2, hpod⟩
    apply (condemned_spec hburst hpassed.requests hhealth _).bind
    rintro p' ⟨rfl, hnone⟩
    exact updateReplicas_spec hnodup hpassed.requests hhealth hpassed.healthy hnone
  unfold updateWith
  dsimp only
  split
  · exact ⟨0, hnil.reason 0⟩
  cases hresult : updatePods env pods ⟨initialStatus env pods, []⟩ with
  | error outcome =>
    rw [hresult] at hpods
    exact hpods
  | ok p =>
    rw [hresult] at hpods
    exact ⟨0, OnlyUpdates.reason hpods 0⟩

/-- What the requests of an update may do to pods, if management is ordered. -/
structure RespectsOrdinals (set : StatefulSet) (updateRevision : Str) (pods : List Pod)
    (requests : List Request) : Prop where
  one : ∃ ordinal, ∀ pod, .create pod ∈ requests ∨ .delete pod ∈ requests →
    getOrdinal pod = ordinal
  create : ∀ pod, .create pod ∈ requests → ∀ j : ℕ, (j : ℤ) < getOrdinal pod →
    ∃ q ∈ pods, getOrdinal q = j ∧ isCreated q ∧ isRunningAndReady q ∧ ¬isTerminating q
  scaleDown : ∀ pod, .delete pod ∈ requests → set.replicas ≤ getOrdinal pod →
    (∀ q ∈ pods, getOrdinal q ≤ getOrdinal pod) ∧ ∀ j < set.replicas,
      ∃ q ∈ pods, getOrdinal q = j ∧ isRunningAndReady q ∧ ¬isTerminating q
  rollOut : ∀ pod, .delete pod ∈ requests → getOrdinal pod < set.replicas → isHealthy pod →
    (∀ q ∈ pods, getOrdinal q < set.replicas) ∧
    (∀ partition, set.partition = some partition → partition ≤ getOrdinal pod) ∧
    (∀ j < set.replicas, getOrdinal pod < j → ∃ q ∈ pods, getOrdinal q = j) ∧
    ∀ q ∈ pods, getOrdinal pod < getOrdinal q → q.revision = updateRevision ∧ isHealthy q

lemma respectsOrdinals_of_reasoned {outcome : Outcome} (h : Reasoned env pods outcome) :
    RespectsOrdinals env.set env.updateRevision pods outcome.requests := by
  rcases h with ⟨ordinal, h⟩
  constructor
  case one =>
    refine ⟨ordinal, ?_⟩
    rintro pod (hr | hr)
    · rcases h _ hr with _ | ⟨heq, -⟩
      exact heq
    cases h _ hr with
    | replace _ heq => exact heq
    | scaleDown _ heq => exact heq
    | rollOut _ heq => exact heq
  case create =>
    intro pod hr j hj
    cases h _ hr with
    | create heq hbelow =>
      rcases hbelow j (heq ▸ hj) with ⟨q, hq, hordinal, hhealth⟩
      have hphase := phase_of_healthy hhealth
      rcases isHealthy_iff.1 hhealth with ⟨hready, hterm⟩
      refine ⟨q, hq, hordinal, ?_, hready, ?_⟩
      · unfold isCreated
        rw [hphase]
        rfl
      · rw [hterm]
        exact false_ne_true
  case scaleDown =>
    intro pod hr hle
    cases h _ hr with
    | replace _ heq hlt => omega
    | rollOut _ heq hlt => omega
    | scaleDown _ heq _ hmax hbelow =>
      refine ⟨fun q hq => heq ▸ hmax q hq, ?_⟩
      intro j hj
      rcases hbelow j (Int.ofNat_lt.2 hj) with ⟨q, hq, hordinal, hhealth⟩
      rcases isHealthy_iff.1 hhealth with ⟨hready, hterm⟩
      refine ⟨q, hq, hordinal, hready, ?_⟩
      rw [hterm]
      exact false_ne_true
  case rollOut =>
    intro pod hr hlt hhealth
    cases h _ hr with
    | replace _ _ _ hfailed =>
      -- a failed pod is not running
      unfold isFailed at hfailed
      rw [phase_of_healthy hhealth] at hfailed
      cases hfailed
    | scaleDown _ heq hle => omega
    | rollOut _ heq _ hnone hpartition hhigher hbelow =>
      refine ⟨hnone, ?_, ?_, ?_⟩
      · intro partition hsome
        rw [hsome] at hpartition
        rw [heq]
        exact hpartition
      · intro j hj _
        rcases hbelow j (Int.ofNat_lt.2 hj) with ⟨q, hq, hordinal, -⟩
        exact ⟨q, hq, hordinal⟩
      · intro q hq hlt
        exact hhigher q hq (heq ▸ hlt)

/-- **Ordered updates respect ordinals.** Whatever its requests return, an update with ordered
management creates and deletes pods of one ordinal at most: it creates a pod when those before it
are healthy, it deletes a pod beyond the replicas only from the end and when all replicas are
healthy, and it deletes a healthy replica only when there is no such pod, from the partition on and
when those after it are updated and healthy. -/
theorem ordered_update_respects_ordinals (applyRevision : StatefulSet → Str → Option StatefulSet)
    (set : StatefulSet) (currentRevision updateRevision : Str) (collisionCount : ℤ)
    (fails : ℕ → Bool) (pods : List Pod) (hordered : set.podManagementPolicy = .orderedReady)
    (hnodup : (pods.map getOrdinal).Nodup) :
    RespectsOrdinals set updateRevision pods (updateStatefulSet applyRevision set currentRevision
      updateRevision collisionCount fails pods).requests := by
  unfold updateStatefulSet
  split
  · rename_i currentSet updateSet _ _
    have hburst : allowsBurst set = false := by
      unfold allowsBurst
      rw [hordered]
      rfl
    have hreason : Reasoned ⟨set, currentSet, updateSet, currentRevision, updateRevision,
        collisionCount, fails⟩ pods _ := updateWith_reason hburst hnodup
    exact respectsOrdinals_of_reasoned hreason
  · constructor
    case one => exact ⟨0, fun pod h => h.elim nofun nofun⟩
    all_goals exact nofun

/-- A set of three replicas, of which two are updated. -/
def webSet : StatefulSet where
  name := ['w']
  nspace := ['n']
  generation := 1
  deletionTimestamp := none
  replicas := 3
  podManagementPolicy := .orderedReady
  updateStrategy := .rollingUpdate
  partition := some 1
  currentReplicas := 3
  templateVolumes := []
  volumeClaimTemplates := []
  replicas_lt := by decide

/-- One of its pods. -/
def webPod (ordinal : Char) (revision : Str) : Pod where
  name := ['w', '-', ordinal]
  nspace := ['n']
  phase := .running
  ready := true
  deletionTimestamp := none
  revision := revision
  podName := ['w', '-', ordinal]
  volumes := []

def webPods : List Pod := [webPod '2' ['b'], webPod '0' ['a'], webPod '1' ['a']]

/-- The last replica is updated, so the one before it is deleted. -/
theorem ordered_update_web :
    (updateStatefulSet (fun set _ => some set) webSet ['a'] ['b'] 0 (fun _ => false)
      webPods).requests = [.delete (webPod '1' ['a'])] ∧
    RespectsOrdinals webSet ['b'] webPods
      (updateStatefulSet (fun set _ => some set) webSet ['a'] ['b'] 0 (fun _ => false)
        webPods).requests :=
  ⟨by decide +kernel, ordered_update_respects_ordinals (fun set _ => some set) webSet ['a'] ['b'] 0
    (fun _ => false) webPods rfl (by decide +kernel)⟩

end Kubernetes.Controllers.StatefulSetControl
