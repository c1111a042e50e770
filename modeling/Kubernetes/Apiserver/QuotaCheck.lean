import Kubernetes.Apiserver.QuotaResources

/-! # Quota admission

A model of `CheckRequest` and `checkQuotas` of
`staging/src/k8s.io/apiserver/pkg/admission/plugin/resourcequota/controller.go`.

A batch of requests of one namespace is checked against its quotas, one request after the other:
each passes if it fits in all the quotas that match it, and these are then charged with it. Quotas
that were changed are updated, and when updates fail the whole batch is checked again, against the
current versions of those quotas only. A request waits with the default result `DEFAULT DENY` until
all updates have succeeded, or until a round finds that it changes no quota.

Evaluators are parameters; an object is the metadata that the code reads and the rest. The accessor
of quotas may return anything, depending on all that happened before. The rounds of a batch are
recorded with what was read and written. Texts of errors are replaced by their data.
-/

namespace Kubernetes.Apiserver.Quota

open CountMap

/-! ## Quotas, requests and evaluators -/

inductive ScopeSelectorOperator where
  | opIn
  | opNotIn
  | opExists
  | opDoesNotExist
deriving DecidableEq

/-- `ScopedResourceSelectorRequirement`. -/
structure ScopeRequirement where
  scopeName : Str
  operator : ScopeSelectorOperator
  values : List Str
deriving DecidableEq

/-- `corev1.ResourceQuota`: hard limits and usage are those of its status. -/
structure ResourceQuota where
  name : Str
  nspace : Str
  scopes : List Str
  scopeSelector : Option (List ScopeRequirement)
  hard : ResourceList
  used : ResourceList
deriving DecidableEq

structure GroupResource where
  group : Str
  resource : Str
deriving DecidableEq

/-- `LimitedResource` of the configuration. -/
structure LimitedResource where
  groupResource : GroupResource
  matchContains : List Str
  matchScopes : List ScopeRequirement

structure ObjectMeta where
  nspace : Str
  resourceVersion : Str
deriving DecidableEq

/-- An object; some kinds have no metadata. -/
structure Object (S : Type) where
  objectMeta : Option ObjectMeta
  spec : S
deriving DecidableEq

inductive Operation where
  | create
  | update
  | delete
  | connect
deriving DecidableEq

/-- `admission.Attributes`. -/
structure Attributes (S : Type) where
  resource : GroupResource
  nspace : Str
  operation : Operation
  object : Object S
  oldObject : Option (Object S)
  isDryRun : Bool
deriving DecidableEq

/-- `quota.Evaluator`. -/
structure Evaluator (S : Type) where
  handles : Attributes S → Bool
  constraints : List ResourceName → Object S → Except Str Unit
  matchesQuota : ResourceQuota → Object S → Except Str Bool
  matchingScopes : Object S → List ScopeRequirement → Except Str (List ScopeRequirement)
  uncoveredQuotaScopes : List ScopeRequirement → List ScopeRequirement →
    Except Str (List ScopeRequirement)
  matchingResources : List ResourceName → List ResourceName
  usage : Object S → Except Str ResourceList

/-- The errors of a check. -/
inductive CheckError where
  | evaluator (err : Str)
  | matchingScopes (quota err : Str)
  | failedQuota (quota err : Str)
  | statusUnknown (quota : Str) (resources : List ResourceName)
  | negativeUsage (resources : List ResourceName)
  | noPriorVersion
  | insufficientQuota (resources : List ResourceName)
  | insufficientScopes (scopes : List ScopeRequirement)
  | exceededQuota (quota : Str) (requested used limited : ResourceList)
deriving DecidableEq

section

variable {S : Type}

/-! ## One request -/

def getScopeSelectorsFromQuota (quota : ResourceQuota) : List ScopeRequirement :=
  quota.scopes.map (fun scope => ⟨scope, .opExists, []⟩) ++ quota.scopeSelector.getD []

variable (evaluator : Evaluator S) (object : Object S)

def getMatchedLimitedScopes (limited : List LimitedResource) : Except Str (List ScopeRequirement) :=
  limited.foldlM (fun scopes limitedResource => do
    let matched ← evaluator.matchingScopes object limitedResource.matchScopes
    .ok (scopes ++ matched)) []

def limitedByDefault (usage : ResourceList) (limited : List LimitedResource) :
    List ResourceName :=
  limited.flatMap fun limitedResource =>
    (usage.entries.filter fun e =>
      decide (0 < e.2) && limitedResource.matchContains.any fun part => decide (part <:+: e.1)).map
      (·.1)

variable (a : Attributes S) (limited : List LimitedResource)

/-- The resources that a quota must cover. -/
def limitedResourceNames : Except Str (List ResourceName) :=
  match limited.filter fun limitedResource => limitedResource.groupResource = a.resource with
  | [] => .ok []
  | limitedResources => do
    let deltaUsage ← evaluator.usage a.object
    .ok (limitedByDefault deltaUsage limitedResources)

def hasUsageStats (quota : ResourceQuota) (interestingResources : List ResourceName) : Bool :=
  quota.hard.keys.all fun name => decide (name ∉ interestingResources) ||
    (quota.used.lookup name).isSome

/-- What the loop over quotas collects: the indexes of those that are pertinent, the resources they
restrict, and the scopes that matched. -/
structure Pertinent where
  interestingQuotaIndexes : List ℕ
  restrictedResources : List ResourceName
  restrictedScopes : List ScopeRequirement

/-- One round of this loop. -/
def examineQuota (found : Pertinent) (entry : ResourceQuota × ℕ) : Except CheckError Pertinent := do
  let (quota, i) := entry
  let scopes ← (evaluator.matchingScopes object (getScopeSelectorsFromQuota quota)).mapError
    (.matchingScopes quota.name)
  let found := { found with restrictedScopes := found.restrictedScopes ++ scopes }
  if ← (evaluator.matchesQuota quota object).mapError .evaluator then
    let restrictedResources := evaluator.matchingResources quota.hard.keys
    (evaluator.constraints restrictedResources object).mapError (.failedQuota quota.name)
    if hasUsageStats quota restrictedResources then
      .ok { found with
        interestingQuotaIndexes := found.interestingQuotaIndexes ++ [i]
        restrictedResources := found.restrictedResources ++ restrictedResources }
    else .error (.statusUnknown quota.name restrictedResources)
  else .ok found

variable (quotas : List ResourceQuota)

def pertinentQuotas : Except CheckError Pertinent :=
  quotas.zipIdx.foldlM (examineQuota evaluator object) ⟨[], [], []⟩

/-- The object gets the namespace of the request if it has none. -/
def Attributes.withNamespace : Attributes S :=
  match a.object.objectMeta with
  | some m =>
    if a.nspace ≠ [] ∧ m.nspace = [] then
      { a with object := { a.object with objectMeta := some { m with nspace := a.nspace } } }
    else a
  | none => a

/-- The usage that an update is charged with, unless it may be a create. -/
def subtractPrevious (deltaUsage : ResourceList)
    (prevItem : Object S) : Except CheckError ResourceList :=
  match prevItem.objectMeta with
  | some m =>
    if m.resourceVersion ≠ [] then do
      let prevUsage ← (evaluator.usage prevItem).mapError .evaluator
      .ok (subtractWithNonNegativeResult deltaUsage prevUsage)
    else .ok deltaUsage
  | none => .ok deltaUsage

/-- The usage delta of a request, without zeros. -/
def deltaUsage : Except CheckError ResourceList := do
  let usage ← (evaluator.usage a.object).mapError .evaluator
  if isNegative usage ≠ [] then .error (.negativeUsage (isNegative usage))
  else if a.operation = .update then
    match a.oldObject with
    | none => .error .noPriorVersion
    | some prevItem => do
      let delta ← subtractPrevious evaluator usage prevItem
      .ok (removeZeros delta)
  else .ok (removeZeros usage)

/-- One pertinent quota is charged with a usage delta. -/
def chargeQuota (deltaUsage : ResourceList) (quotas : List ResourceQuota) (i : ℕ) :
    Except CheckError (List ResourceQuota) :=
  match quotas[i]? with
  | none => .ok quotas
  | some quota =>
    let requestedUsage := mask deltaUsage quota.hard.keys
    let newUsage := add quota.used requestedUsage
    let maskedNewUsage := mask newUsage requestedUsage.keys
    match exceeded maskedNewUsage quota.hard with
    | [] => .ok (quotas.set i { quota with used := newUsage })
    | names => .error (.exceededQuota quota.name (mask requestedUsage names) (mask quota.used names)
        (mask quota.hard names))

/-- The end of a check, when the pertinent quotas are known. -/
def chargeRequest (limitedScopes : List ScopeRequirement)
    (limitedNames : List ResourceName) (quotas : List ResourceQuota) (a : Attributes S)
    (found : Pertinent) : Except CheckError (List ResourceQuota) := do
  let delta ← deltaUsage evaluator a
  if delta.keys = [] then .ok quotas
  else
    let uncovered := limitedNames.filter fun name => name ∉ found.restrictedResources
    if uncovered ≠ [] then .error (.insufficientQuota uncovered)
    else
      let scopes ← (evaluator.uncoveredQuotaScopes limitedScopes found.restrictedScopes).mapError
        .evaluator
      if scopes ≠ [] then .error (.insufficientScopes scopes)
      else found.interestingQuotaIndexes.foldlM (chargeQuota delta) quotas

/-- `CheckRequest`, with the request as it leaves it. -/
def checkRequestWith (a : Attributes S) : Attributes S × Except CheckError (List ResourceQuota) :=
  if evaluator.handles a then
    match getMatchedLimitedScopes evaluator a.object limited with
    | .error _ => (a, .ok quotas)
    | .ok limitedScopes =>
      match limitedResourceNames evaluator a limited with
      | .error err => (a, .error (.evaluator err))
      | .ok limitedNames =>
        match pertinentQuotas evaluator a.object quotas with
        | .error err => (a, .error err)
        | .ok found => (a.withNamespace,
            chargeRequest evaluator limitedScopes limitedNames quotas a.withNamespace found)
  else (a, .ok quotas)

/-- What a quota evaluator is configured with: the registry and the limited resources. -/
structure Config (S : Type) where
  registry : GroupResource → Option (Evaluator S)
  limitedResources : List LimitedResource

variable (c : Config S) (quotas : List ResourceQuota)

def checkRequest (a : Attributes S) : Attributes S × Except CheckError (List ResourceQuota) :=
  match c.registry a.resource with
  | none => (a, .ok quotas)
  | some evaluator => checkRequestWith evaluator c.limitedResources quotas a

/-! ## A batch of requests -/

inductive Result where
  | defaultDeny
  | rejected (err : CheckError)
  | failed (err : Str)
  | admitted
deriving DecidableEq

/-- `admissionWaiter`. -/
structure Waiter (S : Type) where
  attributes : Attributes S
  result : Result
deriving DecidableEq

def newAdmissionWaiter (a : Attributes S) : Waiter S := ⟨a, .defaultDeny⟩

/-- Some quota has another usage. -/
def usageChanged (quotas newQuotas : List ResourceQuota) : Bool :=
  (quotas.zip newQuotas).any fun q => !equals q.1.used q.2.used

/-- The state of the loop over waiters: the running quotas, the waiters that were checked, and
whether one of them changed a quota. -/
structure Batch (S : Type) where
  quotas : List ResourceQuota
  checked : List (Waiter S)
  atLeastOneChanged : Bool

/-- One round of this loop. -/
def checkWaiter (batch : Batch S) (w : Waiter S) : Batch S :=
  match checkRequest c batch.quotas w.attributes with
  | (a, .error err) => { batch with checked := batch.checked ++ [⟨a, .rejected err⟩] }
  | (a, .ok newQuotas) =>
    if a.isDryRun then { batch with checked := batch.checked ++ [⟨a, .admitted⟩] }
    else if usageChanged batch.quotas newQuotas then
      ⟨newQuotas, batch.checked ++ [⟨a, w.result⟩], true⟩
    else ⟨newQuotas, batch.checked ++ [⟨a, .admitted⟩], batch.atLeastOneChanged⟩

def checkWaiters (waiters : List (Waiter S)) : Batch S :=
  waiters.foldl (checkWaiter c) ⟨quotas, [], false⟩

/-- An update of a quota: the quota as it was read and as it is written, and the error. -/
structure Update where
  original : ResourceQuota
  written : ResourceQuota
  err : Option Str
deriving DecidableEq

/-- A round of `checkQuotas`: the names of the quotas it is made for, those that were read, the
waiters before it and its updates. -/
structure Round (S : Type) where
  names : List Str
  quotas : List ResourceQuota
  waiters : List (Waiter S)
  updates : List Update

/-- `QuotaAccessor`, which may depend on all rounds before and on the updates of this one. -/
structure QuotaAccessor (S : Type) where
  updateQuotaStatus : List (Round S) → List Update → ResourceQuota → Option Str
  getQuotas : List (Round S) → Str → Except Str (List ResourceQuota)

variable (accessor : QuotaAccessor S)

/-- One round of the loop over updates. -/
def updateQuota (history : List (Round S)) (updates : List Update)
    (pair : ResourceQuota × ResourceQuota) : List Update :=
  if equals pair.1.used pair.2.used then updates
  else updates ++ [⟨pair.1, pair.2, accessor.updateQuotaStatus history updates pair.2⟩]

def updateQuotas (history : List (Round S))
    (originalQuotas quotas : List ResourceQuota) : List Update :=
  (originalQuotas.zip quotas).foldl (updateQuota accessor history) []

/-- Waiters that are still denied by default get a result. -/
def Waiter.settle (result : Result) (w : Waiter S) : Waiter S :=
  match w.result with
  | .defaultDeny => { w with result := result }
  | _ => w

/-- The waiters at the end, and all rounds. -/
structure Outcome (S : Type) where
  waiters : List (Waiter S)
  rounds : List (Round S)

/-- `checkQuotas`: one round, and a retry if updates failed. -/
def checkQuotas (c : Config S) (accessor : QuotaAccessor S) (remainingRetries : ℕ)
    (history : List (Round S)) (names : List Str) (quotas : List ResourceQuota)
    (waiters : List (Waiter S)) : Outcome S :=
  let batch := checkWaiters c quotas waiters
  let updates :=
    if batch.atLeastOneChanged then updateQuotas accessor history quotas batch.quotas else []
  let history := history ++ [⟨names, quotas, waiters, updates⟩]
  if batch.atLeastOneChanged then
    match updates.filter fun u => u.err.isSome with
    | [] => ⟨batch.checked.map (Waiter.settle .admitted), history⟩
    | failed =>
      let lastErr := Result.failed ((failed.filterMap (·.err)).getLastD [])
      match remainingRetries with
      | 0 => ⟨batch.checked.map (Waiter.settle lastErr), history⟩
      | remainingRetries + 1 =>
        match accessor.getQuotas history ((batch.quotas.map (·.nspace)).headD []) with
        | .error _ => ⟨batch.checked.map (Waiter.settle lastErr), history⟩
        | .ok newQuotas =>
          let failedNames := failed.map (·.written.name)
          checkQuotas c accessor remainingRetries history failedNames
            (newQuotas.filter fun quota => quota.name ∈ failedNames) batch.checked
  else ⟨batch.checked, history⟩

def checkAttributes (ns : Str) (requests : List (Attributes S)) : Outcome S :=
  match accessor.getQuotas [] ns with
  | .error err => ⟨requests.map fun a => ⟨a, .failed err⟩, []⟩
  | .ok quotas =>
    if quotas = [] ∧ c.limitedResources.length = 0 then ⟨requests.map fun a => ⟨a, .admitted⟩, []⟩
    else checkQuotas c accessor 3 [] (quotas.map (·.name)) quotas (requests.map newAdmissionWaiter)

end

end Kubernetes.Apiserver.Quota
