import Kubernetes.GoMap

/-! # Pods as the resource managers see them

The resources of containers, and the quality-of-service class of a pod (`helper/qos`). An
amount is a natural number, since validation refuses negative ones.
-/

namespace Kubernetes.Kubelet

/-- A `resource.Quantity`: the amount in units of 10⁻⁹, and whether it is kept as an
`int64Amount`. -/
structure Quantity where
  nano : Nat
  isInt64Amount : Bool := true
deriving DecidableEq

namespace Quantity

variable (q : Quantity)

/-- `Value`, which rounds up. -/
def value : Nat := (q.nano + 999999999) / 1000000000

/-- `MilliValue`, which rounds up. -/
def milliValue : Nat := (q.nano + 999999) / 1000000

def asInt64 : Option Nat :=
  if q.isInt64Amount ∧ q.nano % 1000000000 = 0 ∧ q.nano / 1000000000 < 2 ^ 63 then
    some (q.nano / 1000000000)
  else none

end Quantity

/-- `v1.ResourceName` -/
inductive ResourceName where
  | cpu
  | memory
  /-- Huge pages of the given size in bytes. -/
  | hugePages (pageSize : Nat)
  | other (name : String)
deriving DecidableEq

def isHugePageResourceName : ResourceName → Bool
  | .hugePages _ => true
  | _ => false

/-- `v1.ResourceList` -/
abbrev ResourceList := GoMap ResourceName Quantity

structure Container where
  name : String
  requests : ResourceList := ∅
  limits : ResourceList := ∅
deriving DecidableEq

structure Pod where
  uid : String
  initContainers : List Container := []
  containers : List Container := []
deriving DecidableEq

/-! ## Quality of service -/

inductive PodQOSClass where
  | guaranteed
  | burstable
  | bestEffort
deriving DecidableEq

def isSupportedQoSComputeResource : ResourceName → Bool
  | .cpu => true
  | .memory => true
  | _ => false

/-- Add the positive amounts of the supported resources of one container. -/
def addToTotals (totals : GoMap ResourceName Nat) (list : ResourceList) : GoMap ResourceName Nat :=
  list.entries.foldl (fun totals e =>
    if isSupportedQoSComputeResource e.1 ∧ 0 < e.2.nano then
      totals.insert e.1 (e.2.nano + (totals.lookup e.1).getD 0)
    else totals) totals

/-- A limit that `qosLimitsFound` records. -/
def hasLimit (c : Container) (name : ResourceName) : Bool :=
  match c.limits.lookup name with
  | some q => 0 < q.nano
  | none => false

def getPodQOS (pod : Pod) : PodQOSClass :=
  let allContainers := pod.containers ++ pod.initContainers
  let requests := allContainers.foldl (fun totals c => addToTotals totals c.requests) ∅
  let limits := allContainers.foldl (fun totals c => addToTotals totals c.limits) ∅
  let allLimited := allContainers.all fun c => hasLimit c .memory && hasLimit c .cpu
  if requests.keys = [] ∧ limits.keys = [] then .bestEffort
  else if allLimited ∧ requests.entries.all (fun e => limits.lookup e.1 = some e.2) ∧
      requests.keys.length = limits.keys.length then .guaranteed
  else .burstable

end Kubernetes.Kubelet
