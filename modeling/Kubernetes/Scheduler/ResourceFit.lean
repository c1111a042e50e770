import Kubernetes.Scheduler.NodeInfo

/-! # Resource fit and node accounting

The filter of the `noderesources` plugin (`fitsRequest`) admits a pod by the request that
`computePodResourceRequest` computes; the node's `Requested` is kept by `AddPodInfo` and
`RemovePod` with the request that `calculateResource` computes. The request of a pod for
one resource is, abstractly, `podRequest`: the larger of what the containers ask for
together and what each init container asks for, and the overhead.

All resources are treated alike: `Resource.of` reads the amount of a resource by its
name, and each operation is described by what it does to that amount.

Results:

1. `of_calculateResource`, `computePodResourceRequest_eq`: both functions compute
   `podRequest`;
2. `of_le_of_fits`: what is admitted fits;
3. `no_overcommit`: in every sequence of admissions and removals, `Requested` is the sum of
   the requests of the pods, and within the allocatable resources.
-/

namespace Kubernetes.Scheduler

open GoMap List Scheduler.Resource

/-! ## The filter -/

structure InsufficientResource where
  resourceName : String
  reason : String
  requested : Int
  used : Int
  capacity : Int
deriving DecidableEq

variable (cfg : Config)

def computePodResourceRequest (pod : Pod) : Resource :=
  let result := pod.containers.foldl (fun result c => result.add cfg c.requests) .zero
  -- take max_resource(sum_pod, any_init_container)
  let result := pod.initContainers.foldl (fun result c => result.setMaxResource cfg c.requests) result
  match pod.overhead with
  | some overhead => if cfg.podOverhead then result.add cfg overhead else result
  | none => result

/-- The check of one resource. -/
def insufficient (resourceName reason : String) (requested used capacity : Int) :
    List InsufficientResource :=
  if requested > capacity - used then [⟨resourceName, reason, requested, used, capacity⟩] else []

def fitsRequest (isExtendedResourceName : String → Bool) (podRequest : Resource)
    (nodeInfo : NodeInfo) (ignoredExtendedResources ignoredResourceGroups : Finset String) :
    List InsufficientResource :=
  let allowedPodNumber := nodeInfo.allocatable.allowedPodNumber
  let tooManyPods : List InsufficientResource :=
    if (nodeInfo.pods.length : Int) + 1 > allowedPodNumber then
      [⟨"pods", "Too many pods", 1, nodeInfo.pods.length, allowedPodNumber⟩]
    else []
  if podRequest.milliCPU = 0 ∧ podRequest.memory = 0 ∧ podRequest.ephemeralStorage = 0 ∧
      podRequest.scalarResources.entries = [] then tooManyPods
  else
    tooManyPods ++
    insufficient "cpu" "Insufficient cpu" podRequest.milliCPU nodeInfo.requested.milliCPU
      nodeInfo.allocatable.milliCPU ++
    insufficient "memory" "Insufficient memory" podRequest.memory nodeInfo.requested.memory
      nodeInfo.allocatable.memory ++
    insufficient "ephemeral-storage" "Insufficient ephemeral-storage" podRequest.ephemeralStorage
      nodeInfo.requested.ephemeralStorage nodeInfo.allocatable.ephemeralStorage ++
    podRequest.scalarResources.entries.flatMap fun e =>
      let rNamePrefix :=
        if ignoredResourceGroups ≠ ∅ then (e.1.splitOn "/").headD "" else ""
      if isExtendedResourceName e.1 &&
          (e.1 ∈ ignoredExtendedResources || rNamePrefix ∈ ignoredResourceGroups) then []
      else
        insufficient e.1 ("Insufficient " ++ e.1) e.2 (nodeInfo.requested.scalar e.1)
          (nodeInfo.allocatable.scalar e.1)

/-! ## Amounts of resources -/

namespace Resource

/-- The amount of a resource. -/
def of (r : Resource) (name : String) : Int :=
  match name with
  | "cpu" => r.milliCPU
  | "memory" => r.memory
  | "pods" => r.allowedPodNumber
  | "ephemeral-storage" => r.ephemeralStorage
  | name => r.scalar name

end Resource

variable (name : String)

/-- What a quantity of a resource counts for in a request. Pods are not requested. -/
def measure (q : Quantity) : Option Int :=
  match name with
  | "cpu" => some q.milliValue
  | "memory" => some q.value
  | "pods" => none
  | "ephemeral-storage" => if cfg.localStorageCapacityIsolation then some q.value else none
  | name => if cfg.isScalarResourceName name then some q.value else none

/-- The request of one container for a resource. -/
def requestOf (requests : ResourceList) : Option Int :=
  (requests.lookup name).bind (measure cfg name)

/-- The request of a pod for a resource: max(sum of the containers, each init container),
and the overhead. -/
def podRequest (pod : Pod) : Int :=
  let sum := (pod.containers.map fun c => (requestOf cfg name c.requests).getD 0).sum
  let largest := pod.initContainers.foldl
    (fun m c => (requestOf cfg name c.requests).elim m (max m)) sum
  largest + if cfg.podOverhead then (pod.overhead.bind (requestOf cfg name)).getD 0 else 0

namespace Resource

variable (cfg : Config) (r : Resource)

lemma scalar_setScalar (name name' : String) (v : Int) :
    (r.setScalar name v).scalar name' = if name' = name then v else r.scalar name' := by
  unfold setScalar scalar
  rw [lookup_insert_if]
  split <;> rfl

lemma scalar_addScalar (name name' : String) (v : Int) :
    (r.addScalar name v).scalar name' =
      if name' = name then r.scalar name' + v else r.scalar name' := by
  unfold addScalar
  rw [scalar_setScalar]
  split
  · rename_i heq
    rw [heq]
  · rfl

variable {name : String}

section

variable (r : Resource) (v : Int) (name' : String)

lemma of_milliCPU :
    ({ r with milliCPU := v } : Resource).of name' = if name' = "cpu" then v else r.of name' := by
  unfold of
  split <;> simp_all [scalar]

lemma of_memory :
    ({ r with memory := v } : Resource).of name' = if name' = "memory" then v else r.of name' := by
  unfold of
  split <;> simp_all [scalar]

lemma of_allowedPodNumber :
    ({ r with allowedPodNumber := v } : Resource).of name' =
      if name' = "pods" then v else r.of name' := by
  unfold of
  split <;> simp_all [scalar]

lemma of_ephemeralStorage :
    ({ r with ephemeralStorage := v } : Resource).of name' =
      if name' = "ephemeral-storage" then v else r.of name' := by
  unfold of
  split <;> simp_all [scalar]

/-- The name has no field of its own. -/
def IsScalar (name : String) : Prop :=
  name ≠ "cpu" ∧ name ≠ "memory" ∧ name ≠ "pods" ∧ name ≠ "ephemeral-storage"

lemma of_setScalar (hname : IsScalar name) :
    (r.setScalar name v).of name' = if name' = name then v else r.of name' := by
  obtain ⟨hcpu, hmemory, hpods, hstore⟩ := hname
  unfold of
  split
  · rw [if_neg (Ne.symm hcpu)]
    rfl
  · rw [if_neg (Ne.symm hmemory)]
    rfl
  · rw [if_neg (Ne.symm hpods)]
    rfl
  · rw [if_neg (Ne.symm hstore)]
    rfl
  · exact scalar_setScalar r name name' v

lemma of_setScalar_pods : (r.setScalar "pods" v).of name' = r.of name' := by
  unfold of
  split
  · rfl
  · rfl
  · rfl
  · rfl
  · rename_i hpods _
    rw [scalar_setScalar, if_neg hpods]

lemma of_isScalar (hname : IsScalar name) : r.of name = r.scalar name := by
  obtain ⟨hcpu, hmemory, hpods, hstore⟩ := hname
  unfold of
  split <;> first | contradiction | rfl

end

lemma measure_isScalar (hname : IsScalar name) (q : Quantity) :
    measure cfg name q = if cfg.isScalarResourceName name then some q.value else none := by
  obtain ⟨hcpu, hmemory, hpods, hstore⟩ := hname
  unfold measure
  split <;> first | contradiction | rfl

/-- What `Add` adds for a quantity. -/
def addend (name : String) (q : Quantity) : Int :=
  if name = "pods" then q.value else (measure cfg name q).getD 0

section

variable {cfg} {r r' : Resource} {rName : String} {v : Int}

lemma of_added (hr' : ∀ name, r'.of name = if name = rName then v else r.of name) {w : Int}
    (hv : v = r.of rName + w) (name : String) :
    r'.of name = if name = rName then r.of name + w else r.of name := by
  rw [hr']
  split
  · rename_i heq
    rw [heq, hv]
  · rfl

lemma of_raised (hr' : ∀ name, r'.of name = if name = rName then v else r.of name)
    (name : String) :
    (if v > r.of rName then r' else r).of name =
      if name = rName then max (r.of name) v else r.of name := by
  by_cases hlt : v > r.of rName
  · rw [if_pos hlt, hr']
    split
    · rename_i heq
      rw [heq, max_eq_right hlt.le]
    · rfl
  · rw [if_neg hlt]
    split
    · rename_i heq
      rw [heq, max_eq_left (not_lt.1 hlt)]
    · rfl

end

lemma of_addOne (rName : String) (q : Quantity) (name : String) :
    (r.addOne cfg rName q).of name =
      if name = rName then r.of name + addend cfg rName q else r.of name := by
  unfold addOne
  split
  · exact of_added (of_milliCPU r _) rfl name
  · exact of_added (of_memory r _) rfl name
  · exact of_added (of_allowedPodNumber r _) rfl name
  · cases hgate : cfg.localStorageCapacityIsolation with
    | true =>
      rw [if_pos rfl]
      refine of_added (of_ephemeralStorage r _) ?_ name
      simp [addend, measure, hgate, of]
    | false => simp [addend, measure, hgate]
  · rename_i hcpu hmemory hpods hstore
    have hname : IsScalar rName := ⟨hcpu, hmemory, hpods, hstore⟩
    have hadd : addend cfg rName q = (measure cfg rName q).getD 0 := if_neg hpods
    rw [hadd, measure_isScalar cfg hname]
    cases cfg.isScalarResourceName rName with
    | true =>
      refine of_added (fun name => of_setScalar r _ name hname) ?_ name
      rw [of_isScalar r hname]
      rfl
    | false => simp

lemma of_setMaxOne (rName : String) (q : Quantity) (name : String) :
    (r.setMaxOne cfg rName q).of name =
      if name = rName then (measure cfg rName q).elim (r.of name) (max (r.of name))
      else r.of name := by
  unfold setMaxOne
  split
  · exact of_raised (of_memory r _) name
  · exact of_raised (of_milliCPU r _) name
  · cases hgate : cfg.localStorageCapacityIsolation with
    | true =>
      simp only [Bool.true_and, decide_eq_true_eq]
      refine (of_raised (of_ephemeralStorage r q.value) name).trans ?_
      simp [measure, hgate]
    | false => simp [measure, hgate]
  rename_i hmemory hcpu hstore
  by_cases hpods : rName = "pods"
  · -- the number of pods is not in the scalar resources
    subst hpods
    have hsame : ∀ v, (r.setScalar "pods" v).of name = r.of name := fun v => of_setScalar_pods r v name
    simp only [measure, Option.elim_none, ite_self]
    split
    · exact hsame _
    · rfl
  · have hname : IsScalar rName := ⟨hcpu, hmemory, hpods, hstore⟩
    rw [measure_isScalar cfg hname, ← of_isScalar r hname]
    cases cfg.isScalarResourceName rName with
    | true =>
      simp only [Bool.true_and, decide_eq_true_eq]
      exact of_raised (fun name => of_setScalar r _ name hname) name
    | false => simp

variable (rl : ResourceList)

lemma of_add_addend (name : String) :
    (r.add cfg rl).of name = r.of name + ((rl.lookup name).map (addend cfg name)).getD 0 := by
  unfold add
  rw [foldl_view (addOne cfg) of (fun name q v => v + addend cfg name q)
    (fun r k q => by rw [of_addOne, if_pos rfl])
    (fun r k q k' hne => by rw [of_addOne, if_neg hne]) rl]
  cases rl.lookup name with
  | none => simp
  | some q => rfl

lemma of_add (hname : name ≠ "pods") :
    (r.add cfg rl).of name = r.of name + (requestOf cfg name rl).getD 0 := by
  rw [of_add_addend, requestOf]
  cases rl.lookup name with
  | none => rfl
  | some q => simp [addend, hname]

lemma of_setMaxResource (name : String) :
    (r.setMaxResource cfg rl).of name =
      (requestOf cfg name rl).elim (r.of name) (max (r.of name)) := by
  unfold setMaxResource requestOf
  rw [foldl_view (setMaxOne cfg) of
    (fun name q v => (measure cfg name q).elim v (max v))
    (fun r k q => by rw [of_setMaxOne, if_pos rfl])
    (fun r k q k' hne => by rw [of_setMaxOne, if_neg hne]) rl]
  cases rl.lookup name with
  | none => rfl
  | some q => rfl

end Resource

/-! ## The request of a pod -/

/-- Both functions add up the containers, raise to the init containers and add the
overhead. -/
theorem computePodResourceRequest_eq (pod : Pod) :
    computePodResourceRequest cfg pod = (calculateResource cfg pod).res := by
  -- the second one has the non-zero requests in its accumulator as well
  have hsum : ∀ acc : PodResources,
      pod.containers.foldl (fun r c => r.add cfg c.requests) acc.res =
        (pod.containers.foldl (fun (acc : PodResources) c =>
          ⟨acc.res.add cfg c.requests, acc.non0CPU + (getNonzeroRequests c.requests).1,
            acc.non0Mem + (getNonzeroRequests c.requests).2⟩) acc).res := fun acc =>
    foldl_hom PodResources.res fun _ _ => rfl
  have hmax : ∀ acc : PodResources,
      pod.initContainers.foldl (fun r c => r.setMaxResource cfg c.requests) acc.res =
        (pod.initContainers.foldl (fun (acc : PodResources) c =>
          ⟨acc.res.setMaxResource cfg c.requests, max acc.non0CPU (getNonzeroRequests c.requests).1,
            max acc.non0Mem (getNonzeroRequests c.requests).2⟩) acc).res := fun acc =>
    foldl_hom PodResources.res fun _ _ => rfl
  have hboth := hmax (pod.containers.foldl (fun (acc : PodResources) c =>
    ⟨acc.res.add cfg c.requests, acc.non0CPU + (getNonzeroRequests c.requests).1,
      acc.non0Mem + (getNonzeroRequests c.requests).2⟩) ⟨.zero, 0, 0⟩)
  rw [← hsum] at hboth
  unfold computePodResourceRequest calculateResource
  cases pod.overhead with
  | none => exact hboth
  | some overhead =>
    cases cfg.podOverhead with
    | true => exact congrArg (fun r => add cfg r overhead) hboth
    | false => exact hboth

variable {name}

lemma of_foldl_add (l : List Container) (r : Resource) (hname : name ≠ "pods") :
    (l.foldl (fun r c => r.add cfg c.requests) r).of name =
      r.of name + (l.map fun c => (requestOf cfg name c.requests).getD 0).sum := by
  induction l generalizing r with
  | nil => simp
  | cons c l ih =>
    rw [foldl_cons, ih, of_add cfg r _ hname, map_cons, sum_cons]
    ring

lemma of_foldl_setMaxResource (l : List Container) (r : Resource) (name : String) :
    (l.foldl (fun r c => r.setMaxResource cfg c.requests) r).of name =
      l.foldl (fun m c => (requestOf cfg name c.requests).elim m (max m)) (r.of name) := by
  induction l generalizing r with
  | nil => rfl
  | cons c l ih => rw [foldl_cons, ih, of_setMaxResource, foldl_cons]

lemma of_zero (name : String) : zero.of name = 0 := by
  unfold of
  split <;> rfl

lemma of_computePodResourceRequest (pod : Pod) (hname : name ≠ "pods") :
    (computePodResourceRequest cfg pod).of name = podRequest cfg name pod := by
  have hlargest : (pod.initContainers.foldl (fun (r : Resource) c => r.setMaxResource cfg c.requests)
      (pod.containers.foldl (fun (r : Resource) c => r.add cfg c.requests) .zero)).of name =
      pod.initContainers.foldl (fun m c => (requestOf cfg name c.requests).elim m (max m))
        (pod.containers.map fun c => (requestOf cfg name c.requests).getD 0).sum := by
    rw [of_foldl_setMaxResource, of_foldl_add cfg _ _ hname, of_zero, zero_add]
  unfold computePodResourceRequest podRequest
  cases pod.overhead with
  | none => simpa using hlargest
  | some overhead =>
    cases cfg.podOverhead with
    | true =>
      simp only [if_true, Option.bind_some]
      rw [of_add cfg _ _ hname, hlargest]
    | false => simpa using hlargest

/-- The node's accounting and the filter use the same request. -/
theorem of_calculateResource (pod : Pod) (hname : name ≠ "pods") :
    (calculateResource cfg pod).res.of name = podRequest cfg name pod := by
  rw [← computePodResourceRequest_eq, of_computePodResourceRequest cfg pod hname]

lemma NodeInfo.of_adjustRequested (r res : Resource) (sign : Int) (hname : name ≠ "pods") :
    (NodeInfo.adjustRequested r res sign).of name = r.of name + sign * res.of name := by
  have hscalar : (res.scalarResources.entries.foldl
      (fun r e => r.addScalar e.1 (sign * e.2)) r).scalar name =
      r.scalar name + sign * res.scalar name := by
    rw [foldl_view (fun (r : Resource) k v => r.addScalar k (sign * v)) scalar
      (fun _ v s => s + sign * v)
      (fun r k v => by rw [scalar_addScalar, if_pos rfl])
      (fun r k v k' hne => by rw [scalar_addScalar, if_neg hne]) res.scalarResources]
    unfold scalar
    cases res.scalarResources.lookup name with
    | none => simp
    | some v => rfl
  unfold of
  split
  · rfl
  · rfl
  · contradiction
  · rfl
  · exact hscalar

/-! ## What is admitted fits -/

lemma insufficient_eq_nil {resourceName reason : String} {requested used capacity : Int} :
    insufficient resourceName reason requested used capacity = [] ↔
      used + requested ≤ capacity := by
  unfold insufficient
  split
  · simp only [reduceCtorEq, false_iff]
    omega
  · simp only [true_iff]
    omega

lemma Resource.of_eq_zero {r : Resource} (hcpu : r.milliCPU = 0) (hmemory : r.memory = 0)
    (hstore : r.ephemeralStorage = 0) (hscalar : r.scalarResources.entries = [])
    (hname : name ≠ "pods") : r.of name = 0 := by
  have hlookup : r.scalarResources.lookup name = none := by
    unfold AList.lookup
    rw [hscalar]
    rfl
  unfold of
  split
  · exact hcpu
  · exact hmemory
  · contradiction
  · exact hstore
  · rw [scalar, hlookup]
    rfl

variable {isExtendedResourceName : String → Bool}

section

variable {req : Resource} {n : NodeInfo} (h : fitsRequest isExtendedResourceName req n ∅ ∅ = [])

include h

/-- A pod that fits asks for nothing of a resource, or for no more than is left. -/
theorem of_le_of_fits (hname : name ≠ "pods") :
    req.of name = 0 ∨ n.requested.of name + req.of name ≤ n.allocatable.of name := by
  unfold fitsRequest at h
  split at h
  · -- the early exit
    rename_i hzero
    obtain ⟨hcpu, hmemory, hstore, hscalar⟩ := hzero
    exact .inl (of_eq_zero hcpu hmemory hstore hscalar hname)
  simp only [append_eq_nil_iff, insufficient_eq_nil, flatMap_eq_nil_iff,
    Finset.notMem_empty, decide_false, Bool.or_self, Bool.and_false, Bool.false_eq_true,
    if_false] at h
  obtain ⟨⟨⟨⟨-, hcpu⟩, hmemory⟩, hstore⟩, hscalar⟩ := h
  unfold of
  split
  · exact .inr hcpu
  · exact .inr hmemory
  · contradiction
  · exact .inr hstore
  cases hlookup : req.scalarResources.lookup name with
  | none =>
    left
    rw [scalar, hlookup]
    rfl
  | some v =>
    right
    have hentry := hscalar ⟨name, v⟩ (AList.mem_lookup_iff.1 hlookup)
    have hv : req.scalar name = v := by
      rw [scalar, hlookup]
      rfl
    rw [hv]
    exact hentry

lemma length_lt_of_fits : (n.pods.length : Int) + 1 ≤ n.allocatable.allowedPodNumber := by
  by_contra hmany
  unfold fitsRequest at h
  dsimp only at h
  rw [if_pos (not_le.1 hmany)] at h
  split at h <;> simp at h

end

/-! ## Admissions and removals -/

inductive NodeOp where
  /-- Add the pod if it fits. -/
  | place (pod : Pod) (generation : Nat)
  | remove (pod : Pod) (generation : Nat)

def NodeOp.pod : NodeOp → Pod
  | .place pod _ => pod
  | .remove pod _ => pod

section

variable (isExtendedResourceName) (node : Node)

def NodeInfo.stepOp (n : NodeInfo) : NodeOp → Option NodeInfo
  | .place pod generation =>
    if fitsRequest isExtendedResourceName (computePodResourceRequest cfg pod) n ∅ ∅ = [] then
      some (n.addPod cfg pod generation)
    else some n
  | .remove pod generation =>
    match n.removePod cfg pod generation with
    | .removed m => some m
    | .failed m _ => some m
    | .panicked => none

/-- The life of a node, from an empty `NodeInfo` on. -/
def nodeLife (generation : Nat) : Machine NodeInfo NodeOp where
  init := (NodeInfo.new generation).setNode cfg node generation
  step := NodeInfo.stepOp cfg isExtendedResourceName

end

/-- A pod is known by its UID. -/
def UniqueUIDs (pods : List Pod) : Prop :=
  ∀ p ∈ pods, ∀ q ∈ pods, p.uid = q.uid → p = q

lemma UniqueUIDs.of_snoc {tr : List NodeOp} {op : NodeOp}
    (h : UniqueUIDs ((tr ++ [op]).map NodeOp.pod)) : UniqueUIDs (tr.map NodeOp.pod) := by
  intro p hp q hq
  rw [map_append] at h
  exact h p (mem_append_left _ hp) q (mem_append_left _ hq)

/-- Validation accepts no negative quantities. -/
def NonNegative (rl : ResourceList) : Prop :=
  ∀ e ∈ rl.entries, 0 ≤ e.2.value ∧ 0 ≤ e.2.milliValue

instance (rl : ResourceList) : Decidable (NonNegative rl) :=
  inferInstanceAs (Decidable (∀ e ∈ rl.entries, 0 ≤ e.2.value ∧ 0 ≤ e.2.milliValue))

variable {rl : ResourceList}

lemma NonNegative.lookup (h : NonNegative rl) {q : Quantity} (hq : rl.lookup name = some q) :
    0 ≤ q.value ∧ 0 ≤ q.milliValue :=
  h ⟨name, q⟩ (AList.mem_lookup_iff.1 hq)

structure Pod.Validated (pod : Pod) : Prop where
  containers : ∀ c ∈ pod.containers, NonNegative c.requests
  initContainers : ∀ c ∈ pod.initContainers, NonNegative c.requests
  overhead : ∀ rl ∈ pod.overhead, NonNegative rl

instance (pod : Pod) : Decidable pod.Validated :=
  decidable_of_iff
    ((∀ c ∈ pod.containers, NonNegative c.requests) ∧
      (∀ c ∈ pod.initContainers, NonNegative c.requests) ∧ ∀ rl ∈ pod.overhead, NonNegative rl)
    ⟨fun h => ⟨h.1, h.2.1, h.2.2⟩, fun h => ⟨h.containers, h.initContainers, h.overhead⟩⟩

lemma requestOf_nonneg {cfg : Config} (h : NonNegative rl) {v : Int}
    (hv : requestOf cfg name rl = some v) : 0 ≤ v := by
  obtain ⟨q, hq, hmeasure⟩ := Option.bind_eq_some_iff.1 hv
  obtain ⟨hvalue, hmilli⟩ := h.lookup hq
  revert hmeasure
  fun_cases measure cfg name q <;> intro hmeasure <;> cases hmeasure
  case case1 => exact hmilli
  all_goals exact hvalue

lemma getD_requestOf_nonneg {cfg : Config} (h : NonNegative rl) :
    0 ≤ (requestOf cfg name rl).getD 0 := by
  cases hv : requestOf cfg name rl with
  | none => exact le_refl 0
  | some v => exact requestOf_nonneg h hv

lemma podRequest_nonneg {cfg : Config} {pod : Pod} (h : pod.Validated) :
    0 ≤ podRequest cfg name pod := by
  have hsum : 0 ≤ (pod.containers.map fun c => (requestOf cfg name c.requests).getD 0).sum := by
    refine sum_nonneg fun v hv => ?_
    obtain ⟨c, hc, rfl⟩ := mem_map.1 hv
    exact getD_requestOf_nonneg (h.containers c hc)
  -- maxima only raise it
  have hmax : ∀ (l : List Container) (m : Int), 0 ≤ m →
      0 ≤ l.foldl (fun m c => (requestOf cfg name c.requests).elim m (max m)) m := by
    intro l
    induction l with
    | nil => exact fun m hm => hm
    | cons c l ih =>
      intro m hm
      refine ih _ ?_
      show 0 ≤ (requestOf cfg name c.requests).elim m (max m)
      cases requestOf cfg name c.requests with
      | none => exact hm
      | some v => exact hm.trans (le_max_left m v)
  have hoverhead : 0 ≤ if cfg.podOverhead then (pod.overhead.bind (requestOf cfg name)).getD 0
      else 0 := by
    split
    · cases hov : pod.overhead with
      | none => exact le_refl 0
      | some rl => exact getD_requestOf_nonneg (h.overhead rl hov)
    · exact le_refl 0
  exact add_nonneg (hmax _ _ hsum) hoverhead

/-- `Requested` is the sum of the requests of the pods. -/
def Accounted (cfg : Config) (n : NodeInfo) : Prop :=
  ∀ name, name ≠ "pods" → n.requested.of name = (n.pods.map (podRequest cfg name)).sum

/-- No resource is overcommitted. -/
structure WithinAllocatable (n : NodeInfo) : Prop where
  milliCPU : n.requested.milliCPU ≤ n.allocatable.milliCPU
  memory : n.requested.memory ≤ n.allocatable.memory
  ephemeralStorage : n.requested.ephemeralStorage ≤ n.allocatable.ephemeralStorage
  scalar : ∀ name, Resource.IsScalar name → n.requested.scalar name ≤ n.allocatable.scalar name
  pods : (n.pods.length : Int) ≤ n.allocatable.allowedPodNumber

namespace NodeInfo

variable {cfg} {node : Node} {n m : NodeInfo} {pod : Pod} {g : Nat}

lemma removePod_eq_removed (h : n.removePod cfg pod g = .removed m) :
    m.requested = adjustRequested n.requested (calculateResource cfg pod).res (-1) ∧
      m.allocatable = n.allocatable ∧ m.node = n.node ∧
      m.usedPorts = updateUsedPorts n.usedPorts pod false ∧
      m.pods.Perm (n.pods.eraseP (hasKey pod.uid)) ∧ ∃ p ∈ n.pods, hasKey pod.uid p := by
  rcases removePod_removed h with ⟨hperm, hfound, hnode, -⟩
  unfold removePod at h
  split at h
  · cases h
  dsimp only at h
  split at h
  · cases h
    exact ⟨rfl, rfl, hnode, rfl, hperm, hfound⟩
  · split at h <;> cases h

lemma accounted_addPod (h : Accounted cfg n) (pod : Pod) (g : Nat) :
    Accounted cfg (n.addPod cfg pod g) := by
  intro name hname
  show (adjustRequested n.requested (calculateResource cfg pod).res 1).of name =
    ((n.pods ++ [pod]).map (podRequest cfg name)).sum
  rw [of_adjustRequested _ _ _ hname, of_calculateResource cfg pod hname, h name hname]
  simp

/-- The pod that is taken from the slice is the one whose resources are taken back. -/
lemma accounted_removePod (h : Accounted cfg n) (huid : ∀ p ∈ n.pods, p.uid = pod.uid → p = pod)
    (hgone : n.removePod cfg pod g = .removed m) : Accounted cfg m := by
  intro name hname
  obtain ⟨hreq, -, -, -, hperm, p, hp, hkey⟩ := removePod_eq_removed hgone
  obtain ⟨q, l, l', hl, hq, hpods, herase⟩ := exists_of_eraseP hp hkey
  have hsame : q = pod :=
    huid q (hpods ▸ mem_append_right l mem_cons_self) (hasKey_iff.1 hq).1
  have hsum : (n.pods.map (podRequest cfg name)).sum =
      podRequest cfg name pod + (m.pods.map (podRequest cfg name)).sum := by
    rw [(hperm.map _).sum_eq, herase, hpods, hsame]
    simp only [map_append, map_cons, sum_append, sum_cons]
    ring
  rw [hreq, of_adjustRequested _ _ _ hname, of_calculateResource cfg pod hname,
    h name hname, hsum]
  ring

/-- What holds of a node after the operations `tr`. -/
structure Inv (cfg : Config) (node : Node) (tr : List NodeOp) (n : NodeInfo) : Prop where
  known : ∀ p ∈ n.pods, p ∈ tr.map NodeOp.pod
  hasNode : n.node = some node
  allocatable : n.allocatable = .ofList cfg node.allocatable
  pods : (n.pods.length : Int) ≤ n.allocatable.allowedPodNumber
  accounted : UniqueUIDs (tr.map NodeOp.pod) → Accounted cfg n
  within : UniqueUIDs (tr.map NodeOp.pod) → (∀ p ∈ tr.map NodeOp.pod, p.Validated) →
    ∀ name, name ≠ "pods" → n.requested.of name ≤ n.allocatable.of name

lemma of_allocatable_nonneg (hnode : NonNegative node.allocatable) (name : String) :
    0 ≤ (ofList cfg node.allocatable).of name := by
  by_cases hname : name = "pods"
  · subst hname
    rw [ofList, of_add_addend, of_zero, zero_add]
    cases hq : node.allocatable.lookup "pods" with
    | none => exact le_refl 0
    | some q => exact (hnode.lookup hq).1
  · rw [ofList, of_add cfg _ _ hname, of_zero, zero_add]
    exact getD_requestOf_nonneg hnode

lemma Inv.init (hnode : NonNegative node.allocatable) (g : Nat) :
    Inv cfg node [] (nodeLife cfg isExtendedResourceName node g).init where
  known := fun p hp => by cases hp
  hasNode := rfl
  allocatable := rfl
  pods := of_allocatable_nonneg hnode "pods"
  accounted := fun _ name _ => of_zero name
  within := by
    intro _ _ name _
    show zero.of name ≤ (ofList cfg node.allocatable).of name
    rw [of_zero]
    exact of_allocatable_nonneg hnode name

variable {tr : List NodeOp} (h : Inv cfg node tr n)

include h

lemma Inv.place (pod : Pod) (g : Nat)
    (hfits : fitsRequest isExtendedResourceName (computePodResourceRequest cfg pod) n ∅ ∅ = []) :
    Inv cfg node (tr ++ [.place pod g]) (n.addPod cfg pod g) where
  known := by
    intro p hp
    rw [map_append]
    rcases mem_append.1 hp with hold | hnew
    · exact mem_append_left _ (h.known p hold)
    · exact mem_append_right _ hnew
  hasNode := h.hasNode
  allocatable := h.allocatable
  pods := by
    have hlength := length_lt_of_fits hfits
    show ((n.pods ++ [pod]).length : Int) ≤ n.allocatable.allowedPodNumber
    rw [length_append, length_singleton]
    exact hlength
  accounted := fun huid => accounted_addPod (h.accounted huid.of_snoc) pod g
  within := by
    intro huid hvalid name hname
    have hold := h.within huid.of_snoc
      (fun p hp => hvalid p (by rw [map_append]; exact mem_append_left _ hp)) name hname
    show (adjustRequested n.requested (calculateResource cfg pod).res 1).of name ≤
      n.allocatable.of name
    rw [of_adjustRequested _ _ _ hname, ← computePodResourceRequest_eq]
    rcases of_le_of_fits hfits hname with hzero | hroom
    · rw [hzero]
      omega
    · omega

lemma Inv.shrink {op : NodeOp} (hpods : ∀ p ∈ m.pods, p ∈ n.pods)
    (hlength : m.pods.length ≤ n.pods.length) (hnode : m.node = n.node)
    (halloc : m.allocatable = n.allocatable)
    (haccounted : UniqueUIDs ((tr ++ [op]).map NodeOp.pod) → Accounted cfg m)
    (hreq : op.pod.Validated → ∀ name, name ≠ "pods" →
      m.requested.of name ≤ n.requested.of name) :
    Inv cfg node (tr ++ [op]) m where
  known := fun p hp => by
    rw [map_append]
    exact mem_append_left _ (h.known p (hpods p hp))
  hasNode := hnode.trans h.hasNode
  allocatable := halloc.trans h.allocatable
  pods := by
    have hold := h.pods
    rw [halloc]
    omega
  accounted := haccounted
  within := by
    intro huid hvalid name hname
    rw [map_append] at hvalid
    have hold := h.within huid.of_snoc (fun p hp => hvalid p (mem_append_left _ hp)) name hname
    have hpod := hreq (hvalid _ (mem_append_right _ mem_cons_self)) name hname
    rw [halloc]
    omega

lemma Inv.same (op : NodeOp) (hcore : SameCore m n) :
    Inv cfg node (tr ++ [op]) m := by
  refine h.shrink (fun p hp => hcore.pods ▸ hp) (hcore.pods ▸ le_refl _) hcore.node
    hcore.allocatable (fun huid name hname => ?_) (fun _ name _ => hcore.requested ▸ le_refl _)
  rw [hcore.requested, hcore.pods]
  exact h.accounted huid.of_snoc name hname

lemma Inv.remove (hgone : n.removePod cfg pod g = .removed m) :
    Inv cfg node (tr ++ [.remove pod g]) m := by
  obtain ⟨hreq, halloc, hnode, -, hperm, -⟩ := removePod_eq_removed hgone
  refine h.shrink (fun p hp => mem_of_mem_eraseP (hperm.subset hp)) ?_ hnode halloc ?_ ?_
  · rw [hperm.length_eq]
    exact length_eraseP_le
  · intro huid
    refine accounted_removePod (h.accounted huid.of_snoc) (fun p hp hp' => ?_) hgone
    rw [map_append] at huid
    exact huid p (mem_append_left _ (h.known p hp)) pod (mem_append_right _ mem_cons_self) hp'
  · intro hvalid name hname
    have hpod : 0 ≤ podRequest cfg name pod := podRequest_nonneg hvalid
    rw [hreq, of_adjustRequested _ _ _ hname, of_calculateResource cfg _ hname]
    omega

lemma Inv.step (op : NodeOp)
    (hs : n.stepOp cfg isExtendedResourceName op = some m) : Inv cfg node (tr ++ [op]) m := by
  cases op with
  | place pod g =>
    simp only [stepOp] at hs
    split at hs
    · rename_i hfits
      cases hs
      exact h.place pod g hfits
    · cases hs
      exact h.same _ (.refl n)
  | remove pod g =>
    simp only [stepOp] at hs
    split at hs
    · rename_i m' heq
      cases hs
      exact h.remove heq
    · rename_i m' err heq
      cases hs
      exact h.same _ (removePod_failed heq).1
    · cases hs

end NodeInfo

/-- Whatever is admitted and removed, the node's `Requested` is the sum of the requests of its
pods, and no resource is overcommitted. -/
theorem no_overcommit (cfg : Config) (isExtendedResourceName : String → Bool) (node : Node)
    (hnode : NonNegative node.allocatable) (g : Nat) {tr : List NodeOp} {n : NodeInfo}
    (h : (nodeLife cfg isExtendedResourceName node g).Reach tr n)
    (huid : UniqueUIDs (tr.map NodeOp.pod)) :
    Accounted cfg n ∧ n.allocatable = .ofList cfg node.allocatable ∧
      (n.pods.length : Int) ≤ n.allocatable.allowedPodNumber ∧
      ((∀ p ∈ tr.map NodeOp.pod, p.Validated) → WithinAllocatable n) := by
  have hinv : NodeInfo.Inv cfg node tr n :=
    h.history (NodeInfo.Inv cfg node) (NodeInfo.Inv.init hnode g)
      fun _ _ op _ hinv hs => hinv.step op hs
  refine ⟨hinv.accounted huid, hinv.allocatable, hinv.pods, fun hvalid => ?_⟩
  have hwithin := hinv.within huid hvalid
  refine ⟨hwithin "cpu" (by decide), hwithin "memory" (by decide),
    hwithin "ephemeral-storage" (by decide), fun name hname => ?_, hinv.pods⟩
  rw [← Resource.of_isScalar _ hname, ← Resource.of_isScalar _ hname]
  exact hwithin name hname.2.2.1

/-- A cluster with one extended resource. -/
def gpuConfig : Config := ⟨true, true, (· == "example.com/gpu")⟩

def gpuList (milliCPU gpu : Int) : ResourceList :=
  ((∅ : ResourceList).insert "cpu" ⟨(milliCPU + 999) / 1000, milliCPU⟩).insert "example.com/gpu"
    ⟨gpu, gpu * 1000⟩

/-- A node with two CPUs, one GPU and room for three pods. -/
def gpuNode : Node :=
  { name := "node", allocatable := (gpuList 2000 1).insert "pods" ⟨3, 3000⟩ }

def gpuPod (uid : String) (milliCPU gpu initCPU : Int) : Pod :=
  { uid, name := uid, nodeName := "node", containers := [⟨gpuList milliCPU gpu, []⟩],
    initContainers := [⟨(∅ : ResourceList).insert "cpu" ⟨1, initCPU⟩, []⟩] }

/-- The GPU is given out once, and again after the first pod has gone. -/
theorem no_overcommit_gpu :
    let tr := [NodeOp.place (gpuPod "a" 500 1 800) 1, .place (gpuPod "b" 100 1 0) 2,
      .remove (gpuPod "a" 500 1 800) 3, .place (gpuPod "b" 100 1 0) 4]
    ∃ n, (nodeLife gpuConfig (· == "example.com/gpu") gpuNode 0).Reach tr n ∧
      n.pods = [gpuPod "b" 100 1 0] ∧ Accounted gpuConfig n ∧ WithinAllocatable n := by
  intro tr
  obtain ⟨n, hn, hpods⟩ := (nodeLife gpuConfig (· == "example.com/gpu") gpuNode 0).exists_reach
    NodeInfo.pods tr [gpuPod "b" 100 1 0] (by decide +kernel)
  obtain ⟨haccounted, -, -, hwithin⟩ := no_overcommit gpuConfig (· == "example.com/gpu") gpuNode
    (by decide +kernel) 0 hn (by unfold UniqueUIDs; decide +kernel)
  exact ⟨n, hn, hpods, haccounted, hwithin (by decide +kernel)⟩

end Kubernetes.Scheduler
