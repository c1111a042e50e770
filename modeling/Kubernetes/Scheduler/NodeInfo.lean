import Kubernetes.GoMap

/-! # What the scheduler knows about one node

A model of `framework/types.go`: pods, nodes and the aggregated `NodeInfo` with its
operations; also the label selectors and the statuses that plugins use. Quantities are seen
through `Value()` and `MilliValue()`, sums are integers, and a nil slice or map is an empty one.
`PodInfo` is the pod itself, its other fields being computed from it; transient scheduler
information is left out.

Results: `removePod_cases` (the three ways in which `RemovePod` can end) and `clone_eq` (a clone
has the same content).
-/

namespace Kubernetes.Scheduler

open List

/-! ## API objects -/

/-- A `resource.Quantity`, as `Value()` and `MilliValue()` read it. -/
structure Quantity where
  value : Int
  milliValue : Int
deriving DecidableEq

/-- `v1.ResourceList` -/
abbrev ResourceList := GoMap String Quantity

/-- `labels.Set` -/
abbrev Labels := GoMap String String

/-- `labels.Selector` is an interface; `Empty` and `Matches` are used. -/
structure Selector where
  empty : Bool
  selects : Labels → Bool

/-- `labels.Nothing` -/
def Selector.nothing : Selector := ⟨false, fun _ => false⟩

/-- A `*metav1.LabelSelector`: nil, or a selector that may fail to parse. -/
abbrev LabelSelector := Option (Except String Selector)

def labelSelectorAsSelector : LabelSelector → Except String Selector
  | none => .ok .nothing
  | some parsed => parsed

structure ContainerPort where
  hostIP : String
  protocol : String
  hostPort : Int
deriving DecidableEq

structure Container where
  requests : ResourceList
  ports : List ContainerPort
deriving DecidableEq

structure PodAffinityTerm where
  topologyKey : String
deriving DecidableEq

structure PodAffinity where
  required : List PodAffinityTerm
deriving DecidableEq

structure PodAntiAffinity where
  required : List PodAffinityTerm
deriving DecidableEq

structure Affinity where
  podAffinity : Option PodAffinity
  podAntiAffinity : Option PodAntiAffinity
deriving DecidableEq

structure Pod where
  uid : String
  name : String
  nodeName : String
  affinity : Option Affinity := none
  containers : List Container := []
  initContainers : List Container := []
  overhead : Option ResourceList := none
deriving DecidableEq

structure ContainerImage where
  names : List String
  sizeBytes : Int
deriving DecidableEq

structure Node where
  name : String
  labels : GoMap String String := ∅
  allocatable : ResourceList := ∅
  images : List ContainerImage := []
deriving DecidableEq

/-- Feature gates, and `IsScalarResourceName`. -/
structure Config where
  localStorageCapacityIsolation : Bool
  podOverhead : Bool
  isScalarResourceName : String → Bool

/-! ## Statuses -/

inductive Code where
  | error
  | unschedulable
  | unschedulableAndUnresolvable
deriving DecidableEq

/-- A `*framework.Status` other than success. -/
structure Status where
  code : Code
  reasons : List String
deriving DecidableEq

def asStatus (err : String) : Status := ⟨.error, [err]⟩

/-! ## Resources -/

structure Resource where
  milliCPU : Int
  memory : Int
  ephemeralStorage : Int
  allowedPodNumber : Int
  scalarResources : GoMap String Int
deriving DecidableEq

variable (r : Resource) (cfg : Config)

namespace Resource

def zero : Resource := ⟨0, 0, 0, 0, ∅⟩

variable (name : String)

/-- `ScalarResources[name]`, zero when missing. -/
def scalar : Int := (r.scalarResources.lookup name).getD 0

def setScalar (quantity : Int) : Resource :=
  { r with scalarResources := r.scalarResources.insert name quantity }

def addScalar (quantity : Int) : Resource :=
  r.setScalar name (r.scalar name + quantity)

/-- The loop body of `Add`. -/
def addOne (r : Resource) (rName : String) (rQuant : Quantity) : Resource :=
  match rName with
  | "cpu" => { r with milliCPU := r.milliCPU + rQuant.milliValue }
  | "memory" => { r with memory := r.memory + rQuant.value }
  | "pods" => { r with allowedPodNumber := r.allowedPodNumber + rQuant.value }
  | "ephemeral-storage" =>
    if cfg.localStorageCapacityIsolation then
      { r with ephemeralStorage := r.ephemeralStorage + rQuant.value }
    else r
  | rName => if cfg.isScalarResourceName rName then r.addScalar rName rQuant.value else r

def add (r : Resource) (rl : ResourceList) : Resource :=
  rl.entries.foldl (fun r e => r.addOne cfg e.1 e.2) r

/-- The loop body of `SetMaxResource`. -/
def setMaxOne (r : Resource) (rName : String) (rQuantity : Quantity) : Resource :=
  match rName with
  | "memory" => if rQuantity.value > r.memory then { r with memory := rQuantity.value } else r
  | "cpu" =>
    if rQuantity.milliValue > r.milliCPU then { r with milliCPU := rQuantity.milliValue } else r
  | "ephemeral-storage" =>
    if cfg.localStorageCapacityIsolation && rQuantity.value > r.ephemeralStorage then
      { r with ephemeralStorage := rQuantity.value }
    else r
  | rName =>
    if cfg.isScalarResourceName rName && rQuantity.value > r.scalar rName then
      r.setScalar rName rQuantity.value
    else r

def setMaxResource (r : Resource) (rl : ResourceList) : Resource :=
  rl.entries.foldl (fun r e => r.setMaxOne cfg e.1 e.2) r

/-- `NewResource` -/
def ofList (rl : ResourceList) : Resource := zero.add cfg rl

def clone : Resource where
  milliCPU := r.milliCPU
  memory := r.memory
  allowedPodNumber := r.allowedPodNumber
  ephemeralStorage := r.ephemeralStorage
  scalarResources := r.scalarResources

end Resource

def defaultMilliCPURequest : Int := 100

def defaultMemoryRequest : Int := 200 * 1024 * 1024

/-- `GetNonzeroRequests`: cpu and memory, with the defaults when not set. -/
def getNonzeroRequests (requests : ResourceList) : Int × Int :=
  (((requests.lookup "cpu").map (·.milliValue)).getD defaultMilliCPURequest,
    ((requests.lookup "memory").map (·.value)).getD defaultMemoryRequest)

/-- The resources of a pod and its non-zero cpu and memory. -/
structure PodResources where
  res : Resource
  non0CPU : Int
  non0Mem : Int

/-- `calculateResource`: max(sum(containers), initContainers) + overhead. -/
def calculateResource (pod : Pod) : PodResources :=
  let sum := pod.containers.foldl
    (fun (acc : PodResources) c =>
      let (cpu, mem) := getNonzeroRequests c.requests
      ⟨acc.res.add cfg c.requests, acc.non0CPU + cpu, acc.non0Mem + mem⟩) ⟨.zero, 0, 0⟩
  let maxed := pod.initContainers.foldl
    (fun (acc : PodResources) ic =>
      let (cpu, mem) := getNonzeroRequests ic.requests
      ⟨acc.res.setMaxResource cfg ic.requests, max acc.non0CPU cpu, max acc.non0Mem mem⟩) sum
  match pod.overhead with
  | some overhead =>
    if cfg.podOverhead then
      ⟨maxed.res.add cfg overhead,
        maxed.non0CPU + ((overhead.lookup "cpu").map (·.milliValue)).getD 0,
        maxed.non0Mem + ((overhead.lookup "memory").map (·.value)).getD 0⟩
    else maxed
  | none => maxed

/-! ## Host ports -/

structure ProtocolPort where
  protocol : String
  port : Int
deriving DecidableEq

/-- `HostPortInfo`: for every ip the set of its protocol ports. -/
abbrev HostPortInfo := GoMap String (Finset ProtocolPort)

namespace HostPortInfo

def defaultBindAllHostIP : String := "0.0.0.0"

def sanitizeIP (ip : String) : String := if ip = "" then defaultBindAllHostIP else ip

def sanitizeProtocol (protocol : String) : String := if protocol = "" then "TCP" else protocol

def add (h : HostPortInfo) (ip protocol : String) (port : Int) : HostPortInfo :=
  if port ≤ 0 then h
  else
    let ip := sanitizeIP ip
    h.insert ip (insert ⟨sanitizeProtocol protocol, port⟩ ((h.lookup ip).getD ∅))

def remove (h : HostPortInfo) (ip protocol : String) (port : Int) : HostPortInfo :=
  if port ≤ 0 then h
  else
    let ip := sanitizeIP ip
    match h.lookup ip with
    | none => h
    | some m =>
      let m := m.erase ⟨sanitizeProtocol protocol, port⟩
      if m = ∅ then h.erase ip else h.insert ip m

end HostPortInfo

/-! ## NodeInfo -/

structure ImageStateSummary where
  size : Int
  numNodes : Nat
deriving DecidableEq

structure NodeInfo where
  node : Option Node
  pods : List Pod
  podsWithAffinity : List Pod
  podsWithRequiredAntiAffinity : List Pod
  usedPorts : HostPortInfo
  requested : Resource
  nonZeroRequested : Resource
  allocatable : Resource
  imageStates : GoMap String ImageStateSummary
  generation : Nat
deriving DecidableEq

/-- The errors of `GetPodKey` and `NodeInfo.RemovePod`. -/
inductive PodError where
  /-- "Cannot get cache key for pod with empty UID" -/
  | emptyUID
  /-- "no corresponding pod name in pods of node" -/
  | noCorrespondingPod (pod node : String)
deriving DecidableEq

def getPodKey (pod : Pod) : Except PodError String :=
  if pod.uid = "" then .error .emptyUID else .ok pod.uid

def podWithAffinity (p : Pod) : Bool :=
  match p.affinity with
  | some a => a.podAffinity.isSome || a.podAntiAffinity.isSome
  | none => false

def podWithRequiredAntiAffinity (p : Pod) : Bool :=
  match p.affinity with
  | some a =>
    match a.podAntiAffinity with
    | some anti => !anti.required.isEmpty
    | none => false
  | none => false

/-- Whether the pod has the key `k`; a pod without a key is skipped. -/
def hasKey (k : String) (p : Pod) : Bool := getPodKey p = .ok k

/-- `s[i] = s[len(s)-1]; s = s[:len(s)-1]` -/
def swapDelete (s : List Pod) (i : Nat) : List Pod :=
  match s.getLast? with
  | some last => (s.set i last).dropLast
  | none => s

/-- `removeFromSlice`: delete the first pod with the key. -/
def removeFromSlice (s : List Pod) (k : String) : List Pod :=
  match s.findIdx? (hasKey k) with
  | some i => swapDelete s i
  | none => s

variable (n : NodeInfo)

namespace NodeInfo

/-- `NewNodeInfo()`, with the generation it draws. -/
def new (generation : Nat) : NodeInfo where
  node := none
  pods := []
  podsWithAffinity := []
  podsWithRequiredAntiAffinity := []
  usedPorts := ∅
  requested := .zero
  nonZeroRequested := .zero
  allocatable := .zero
  imageStates := ∅
  generation := generation

/-- The zero value `NodeInfo{}`. -/
def empty : NodeInfo := new 0

def clone : NodeInfo where
  node := n.node
  requested := n.requested.clone
  nonZeroRequested := n.nonZeroRequested.clone
  allocatable := n.allocatable.clone
  usedPorts := n.usedPorts
  imageStates := n.imageStates
  generation := n.generation
  pods := n.pods
  podsWithAffinity := n.podsWithAffinity
  podsWithRequiredAntiAffinity := n.podsWithRequiredAntiAffinity

def updateUsedPorts (ports : HostPortInfo) (pod : Pod) (add : Bool) : HostPortInfo :=
  pod.containers.foldl (fun ports c =>
    c.ports.foldl (fun ports p =>
      if add then ports.add p.hostIP p.protocol p.hostPort
      else ports.remove p.hostIP p.protocol p.hostPort) ports) ports

/-- `Requested` after a pod has been added (`sign = 1`) or removed (`sign = -1`). -/
def adjustRequested (res : Resource) (sign : Int) : Resource where
  milliCPU := r.milliCPU + sign * res.milliCPU
  memory := r.memory + sign * res.memory
  ephemeralStorage := r.ephemeralStorage + sign * res.ephemeralStorage
  allowedPodNumber := r.allowedPodNumber
  scalarResources := (res.scalarResources.entries.foldl
    (fun r e => r.addScalar e.1 (sign * e.2)) r).scalarResources

/-- `NonZeroRequested` after a pod has been added or removed. -/
def adjustNonZero (cpu mem sign : Int) : Resource :=
  { r with milliCPU := r.milliCPU + sign * cpu, memory := r.memory + sign * mem }

/-- `AddPodInfo`, drawing the given generation. -/
def addPod (n : NodeInfo) (pod : Pod) (generation : Nat) : NodeInfo :=
  let r := calculateResource cfg pod
  { n with
    requested := adjustRequested n.requested r.res 1
    nonZeroRequested := adjustNonZero n.nonZeroRequested r.non0CPU r.non0Mem 1
    pods := n.pods ++ [pod]
    podsWithAffinity :=
      if podWithAffinity pod then n.podsWithAffinity ++ [pod] else n.podsWithAffinity
    podsWithRequiredAntiAffinity :=
      if podWithRequiredAntiAffinity pod then n.podsWithRequiredAntiAffinity ++ [pod]
      else n.podsWithRequiredAntiAffinity
    usedPorts := updateUsedPorts n.usedPorts pod true
    generation := generation }

/-- The two subset slices are updated before the pod is looked up. -/
def removeAffinity (pod : Pod) (k : String) : NodeInfo :=
  { n with
    podsWithAffinity :=
      if podWithAffinity pod then removeFromSlice n.podsWithAffinity k else n.podsWithAffinity
    podsWithRequiredAntiAffinity :=
      if podWithRequiredAntiAffinity pod then removeFromSlice n.podsWithRequiredAntiAffinity k
      else n.podsWithRequiredAntiAffinity }

/-- How `RemovePod` ends. `panicked` is the nil dereference of `n.node.Name` in the
error text of the not-found branch. -/
inductive RemoveResult where
  | removed (n : NodeInfo)
  | failed (n : NodeInfo) (err : PodError)
  | panicked

/-- `RemovePod`, drawing the given generation when it removes the pod. -/
def removePod (n : NodeInfo) (pod : Pod) (generation : Nat) : RemoveResult :=
  match getPodKey pod with
  | .error err => .failed n err
  | .ok k =>
    let n := n.removeAffinity pod k
    match n.pods.findIdx? (hasKey k) with
    | some i =>
      let r := calculateResource cfg pod
      .removed { n with
        pods := swapDelete n.pods i
        requested := adjustRequested n.requested r.res (-1)
        nonZeroRequested := adjustNonZero n.nonZeroRequested r.non0CPU r.non0Mem (-1)
        usedPorts := updateUsedPorts n.usedPorts pod false
        generation := generation }
    | none =>
      match n.node with
      | some node => .failed n (.noCorrespondingPod pod.name node.name)
      | none => .panicked

/-- `SetNode`, drawing the given generation. -/
def setNode (n : NodeInfo) (node : Node) (generation : Nat) : NodeInfo :=
  { n with
    node := some node
    allocatable := .ofList cfg node.allocatable
    generation := generation }

/-- `RemoveNode`, drawing the given generation. -/
def removeNode (generation : Nat) : NodeInfo :=
  { n with node := none, generation := generation }

end NodeInfo

/-! ## Removing a pod from a slice -/

lemma hasKey_iff {k : String} {p : Pod} : hasKey k p = true ↔ p.uid = k ∧ k ≠ "" := by
  unfold hasKey getPodKey
  by_cases h : p.uid = ""
  · simp only [h, if_true, reduceCtorEq, decide_false, Bool.false_eq_true, false_iff]
    rintro ⟨hk, hne⟩
    exact hne hk.symm
  simp only [h, if_false, Except.ok.injEq, decide_eq_true_eq]
  constructor
  · intro hk
    exact ⟨hk, fun hk' => h (hk.trans hk')⟩
  · intro hk
    exact hk.1

/-- Swapping with the last element and dropping it removes the element. -/
lemma swapDelete_perm {s : List Pod} {i : Nat} (hi : i < s.length) :
    (swapDelete s i).Perm (s.eraseIdx i) := by
  unfold swapDelete
  induction s using reverseRecOn with
  | nil => simp at hi
  | append_singleton s last _ =>
    simp only [getLast?_append, getLast?_singleton, Option.some_or]
    rw [length_append, length_singleton] at hi
    by_cases hlast : i = s.length
    · -- the last element itself is dropped
      subst hlast
      rw [eraseIdx_append_of_length_le le_rfl]
      simp
    have hlt : i < s.length := by omega
    rw [set_append_left _ _ hlt, dropLast_concat, eraseIdx_append_of_lt_length hlt]
    have hset : s.set i last = s.take i ++ last :: s.drop (i + 1) :=
      set_eq_take_cons_drop last hlt
    have herase : s.eraseIdx i = s.take i ++ s.drop (i + 1) :=
      eraseIdx_eq_take_drop_succ s i
    rw [hset, herase, append_assoc]
    exact List.Perm.append_left _ (perm_append_singleton last _).symm

lemma lt_length_of_findIdx? {s : List Pod} {f : Pod → Bool} {i : Nat}
    (h : s.findIdx? f = some i) : i < s.length :=
  (findIdx?_eq_some_iff_findIdx_eq.1 h).1

/-! ## The operations -/

namespace NodeInfo

theorem clone_eq : n.clone = n := rfl

/-- The content that `RemovePod` keeps track of with a generation: everything but
the two subset slices. -/
structure SameCore (m n : NodeInfo) : Prop where
  node : m.node = n.node
  pods : m.pods = n.pods
  usedPorts : m.usedPorts = n.usedPorts
  requested : m.requested = n.requested
  nonZeroRequested : m.nonZeroRequested = n.nonZeroRequested
  allocatable : m.allocatable = n.allocatable
  imageStates : m.imageStates = n.imageStates

lemma SameCore.refl : SameCore n n := ⟨rfl, rfl, rfl, rfl, rfl, rfl, rfl⟩

lemma SameCore.trans {l m n : NodeInfo} (h : SameCore l m) (h' : SameCore m n) :
    SameCore l n :=
  ⟨h.node.trans h'.node, h.pods.trans h'.pods, h.usedPorts.trans h'.usedPorts,
    h.requested.trans h'.requested, h.nonZeroRequested.trans h'.nonZeroRequested,
    h.allocatable.trans h'.allocatable, h.imageStates.trans h'.imageStates⟩

lemma removeAffinity_sameCore (pod : Pod) (k : String) : SameCore (n.removeAffinity pod k) n :=
  ⟨rfl, rfl, rfl, rfl, rfl, rfl, rfl⟩

/-- The ways in which `RemovePod` can end: the pod is removed, and the generation
drawn; or nothing but the subset slices changes, because the pod has no key or is not
among the pods of the node. -/
theorem removePod_cases (n : NodeInfo) (pod : Pod) (g : Nat) :
    (∃ m, n.removePod cfg pod g = .removed m ∧ m.pods.Perm (n.pods.eraseP (hasKey pod.uid)) ∧
        (∃ p ∈ n.pods, hasKey pod.uid p) ∧ m.node = n.node ∧ m.generation = g) ∨
      (∃ m err, n.removePod cfg pod g = .failed m err ∧ SameCore m n ∧
        m.generation = n.generation ∧ ∀ p ∈ n.pods, ¬ hasKey pod.uid p) ∨
      (n.removePod cfg pod g = .panicked ∧ n.node = none ∧
        pod.uid ≠ "" ∧ ∀ p ∈ n.pods, ¬ hasKey pod.uid p) := by
  unfold removePod getPodKey
  split_ifs with huid
  · -- no key
    refine .inr (.inl ⟨n, .emptyUID, rfl, .refl n, rfl, fun p _ hp => ?_⟩)
    exact (hasKey_iff.1 hp).2 huid
  dsimp only
  cases hidx : (n.removeAffinity pod pod.uid).pods.findIdx? (hasKey pod.uid) with
  | some i =>
    -- found at position `i`
    have hidx' : n.pods.findIdx? (hasKey pod.uid) = some i := hidx
    have hlt := lt_length_of_findIdx? hidx'
    refine .inl ⟨_, rfl, ?_, ?_, rfl, rfl⟩
    · show (swapDelete n.pods i).Perm (n.pods.eraseP (hasKey pod.uid))
      rw [eraseP_eq_eraseIdx, hidx']
      exact swapDelete_perm hlt
    · have hfound := of_findIdx?_eq_some hidx'
      rw [getElem?_eq_getElem hlt] at hfound
      exact ⟨n.pods[i], getElem_mem hlt, hfound⟩
  | none =>
    -- not found: the error text needs the node
    have hnone : ∀ p ∈ n.pods, ¬ hasKey pod.uid p := by
      intro p hp
      have := findIdx?_eq_none_iff.1 hidx p hp
      simp [this]
    have hnode : (n.removeAffinity pod pod.uid).node = n.node := rfl
    rw [hnode]
    cases hn : n.node with
    | some node =>
      exact .inr (.inl ⟨_, _, rfl, removeAffinity_sameCore n pod _, rfl, hnone⟩)
    | none => exact .inr (.inr ⟨rfl, rfl, huid, hnone⟩)

variable {cfg n} {m : NodeInfo} {pod : Pod} {g : Nat}

lemma removePod_removed (h : n.removePod cfg pod g = .removed m) :
    m.pods.Perm (n.pods.eraseP (hasKey pod.uid)) ∧ (∃ p ∈ n.pods, hasKey pod.uid p) ∧
      m.node = n.node ∧ m.generation = g := by
  rcases removePod_cases cfg n pod g with ⟨m', heq, hm'⟩ | ⟨m', err, heq, -⟩ | ⟨heq, -⟩
  all_goals
    rw [heq] at h
    cases h
  exact hm'

lemma removePod_failed {err : PodError} (h : n.removePod cfg pod g = .failed m err) :
    SameCore m n ∧ m.generation = n.generation := by
  rcases removePod_cases cfg n pod g with ⟨m', heq, -⟩ | ⟨m', err', heq, hcore, hgen, -⟩ | ⟨heq, -⟩
  all_goals
    rw [heq] at h
    cases h
  exact ⟨hcore, hgen⟩

end NodeInfo

end Kubernetes.Scheduler
