import Kubernetes.Core

/-! # Policy rules, who has them, and what they allow

A model of the parts of role based access control that read policy rules:

1. `RuleAllows` of `plugin/pkg/auth/authorizer/rbac/rbac.go` with the matching functions of
   `pkg/apis/rbac/v1/evaluation_helpers.go`, which decide what a rule allows;
2. `Covers` of `component-helpers/auth/rbac/validation/policy_comparator.go`, which compares the
   texts of rules;
3. `VisitRulesFor` and `ConfirmNoEscalation` of `pkg/registry/rbac/validation/rule.go`, and
   `Authorize`.

Strings are lists of characters. The listers are what a resolver is given; they may fail.
-/

namespace Kubernetes.Rbac

/-! ## Strings -/

/-- `strings.TrimRight(s, "*")`. -/
def trimStars (s : Str) : Str := s.rdropWhile (· = '*')

/-- `strings.SplitN(s, "/", 2)[1]` of a string with a slash. -/
def afterSlash (s : Str) : Str := (s.dropWhile (· ≠ '/')).tail

/-- `strings.HasSuffix(s, "*") && strings.HasPrefix(path, strings.TrimRight(s, "*"))`. -/
def starMatches (s path : Str) : Bool := ['*'].isSuffixOf s && (trimStars s).isPrefixOf path

/-! ## Rules and requests -/

/-- `rbacv1.PolicyRule`. -/
structure PolicyRule where
  verbs : List Str := []
  apiGroups : List Str := []
  resources : List Str := []
  resourceNames : List Str := []
  nonResourceURLs : List Str := []
deriving DecidableEq

/-- `user.Info`. -/
structure User where
  name : Str
  groups : List Str
deriving DecidableEq

/-- `authorizer.Attributes`. -/
structure Attributes where
  user : User
  verb : Str
  «namespace» : Str
  apiGroup : Str
  resource : Str
  subresource : Str
  name : Str
  path : Str
  isResourceRequest : Bool
deriving DecidableEq

/-- `*`, which stands for all verbs, groups, resources or URLs. -/
def all : Str := ['*']

variable (rule : PolicyRule)

def verbMatches (requestedVerb : Str) : Bool :=
  rule.verbs.any fun ruleVerb => ruleVerb = all || ruleVerb = requestedVerb

def apiGroupMatches (requestedGroup : Str) : Bool :=
  rule.apiGroups.any fun ruleGroup => ruleGroup = all || ruleGroup = requestedGroup

/-- One turn of the loop of `ResourceMatches`. -/
def ruleResourceMatches (combinedRequestedResource requestedSubresource ruleResource : Str) :
    Bool :=
  ruleResource = all || ruleResource = combinedRequestedResource ||
    (requestedSubresource ≠ [] && ruleResource.length = requestedSubresource.length + 2 &&
      ['*', '/'].isPrefixOf ruleResource && requestedSubresource.isSuffixOf ruleResource)

def resourceMatches (combinedRequestedResource requestedSubresource : Str) : Bool :=
  rule.resources.any (ruleResourceMatches combinedRequestedResource requestedSubresource)

def resourceNameMatches (requestedName : Str) : Bool :=
  rule.resourceNames = [] || rule.resourceNames.any fun ruleName => ruleName = requestedName

/-- One turn of the loop of `NonResourceURLMatches`. -/
def ruleURLMatches (requestedURL ruleURL : Str) : Bool :=
  ruleURL = all || ruleURL = requestedURL || starMatches ruleURL requestedURL

def nonResourceURLMatches (requestedURL : Str) : Bool :=
  rule.nonResourceURLs.any (ruleURLMatches requestedURL)

variable (q : Attributes)

/-- The resource of a request with its subresource. -/
def Attributes.combinedResource : Str :=
  if q.subresource ≠ [] then q.resource ++ '/' :: q.subresource else q.resource

def ruleAllows (rule : PolicyRule) : Bool :=
  if q.isResourceRequest then
    verbMatches rule q.verb && apiGroupMatches rule q.apiGroup &&
      resourceMatches rule q.combinedResource q.subresource && resourceNameMatches rule q.name
  else verbMatches rule q.verb && nonResourceURLMatches rule q.path

def rulesAllow (rules : List PolicyRule) : Bool := rules.any (ruleAllows q)

/-! ## Comparing rules -/

/-- `BreakdownRule`: a rule as rules with one verb, one resource and one name at most. -/
def breakdownRule : List PolicyRule :=
  (rule.apiGroups.flatMap fun group => rule.resources.flatMap fun resource =>
    rule.verbs.flatMap fun verb =>
      if rule.resourceNames ≠ [] then
        rule.resourceNames.map fun resourceName =>
          { apiGroups := [group], resources := [resource], verbs := [verb],
            resourceNames := [resourceName] }
      else [{ apiGroups := [group], resources := [resource], verbs := [verb] }]) ++
  rule.nonResourceURLs.flatMap fun nonResourceURL =>
    rule.verbs.map fun verb => { nonResourceURLs := [nonResourceURL], verbs := [verb] }

def has (set : List Str) (ele : Str) : Bool := set.any fun s => s = ele

def hasAll (set contains : List Str) : Bool := contains.all (has set)

def resourceCoversAll (setResources coversResources : List Str) : Bool :=
  has setResources all || hasAll setResources coversResources ||
    coversResources.all fun path =>
      has setResources path ||
        ('/' ∈ path && has setResources (['*', '/'] ++ afterSlash path))

def nonResourceURLCovers (ownerPath subPath : Str) : Bool :=
  ownerPath = subPath || starMatches ownerPath subPath

def nonResourceURLsCoversAll (set covers : List Str) : Bool :=
  covers.all fun path => set.any fun owner => nonResourceURLCovers owner path

def ruleCovers (ownerRule subRule : PolicyRule) : Bool :=
  let verbMatches := has ownerRule.verbs all || hasAll ownerRule.verbs subRule.verbs
  let groupMatches := has ownerRule.apiGroups all || hasAll ownerRule.apiGroups subRule.apiGroups
  let resourceMatches := resourceCoversAll ownerRule.resources subRule.resources
  let nonResourceURLMatches :=
    nonResourceURLsCoversAll ownerRule.nonResourceURLs subRule.nonResourceURLs
  let resourceNameMatches :=
    if subRule.resourceNames = [] then decide (ownerRule.resourceNames = [])
    else ownerRule.resourceNames = [] || hasAll ownerRule.resourceNames subRule.resourceNames
  verbMatches && groupMatches && resourceMatches && resourceNameMatches && nonResourceURLMatches

/-- `Covers`: whether the rules of the owner cover those of the servant, and the rules that they do
not cover. -/
def covers (ownerRules servantRules : List PolicyRule) : Bool × List PolicyRule :=
  let subrules := servantRules.flatMap breakdownRule
  let uncoveredRules := subrules.filter fun subrule =>
    !ownerRules.any fun ownerRule => ruleCovers ownerRule subrule
  (decide (uncoveredRules.length = 0), uncoveredRules)

/-! ## Roles and bindings -/

inductive SubjectKind where
  | user
  | group
  | serviceAccount
  | other
deriving DecidableEq

structure Subject where
  kind : SubjectKind
  name : Str
  «namespace» : Str
deriving DecidableEq

inductive RoleRefKind where
  | role
  | clusterRole
  | other (kind : Str)
deriving DecidableEq

structure RoleRef where
  kind : RoleRefKind
  name : Str
deriving DecidableEq

/-- `rbacv1.RoleBinding` or `rbacv1.ClusterRoleBinding`. -/
structure Binding where
  name : Str
  «namespace» : Str
  subjects : List Subject
  roleRef : RoleRef
deriving DecidableEq

inductive ResolveError where
  | lister (message : Str)
  | unsupportedKind (kind : Str)
deriving DecidableEq

/-- `DefaultRuleResolver`. -/
structure RuleResolver where
  getRole : Str → Str → Except ResolveError (List PolicyRule)
  getClusterRole : Str → Except ResolveError (List PolicyRule)
  listRoleBindings : Str → Except ResolveError (List Binding)
  listClusterRoleBindings : Except ResolveError (List Binding)

/-- `serviceaccount.ServiceAccountUsernamePrefix`. -/
def serviceAccountUsernamePrefix : Str := "system:serviceaccount:".toList

/-- What is left of a string after a given start. -/
def afterStart (start s : Str) : Option Str :=
  if start.isPrefixOf s then some (s.drop start.length) else none

/-- `serviceaccount.MatchesUsername`. -/
def matchesUsername (namespace_ name username : Str) : Bool :=
  match ((afterStart serviceAccountUsernamePrefix username).bind (afterStart namespace_)).bind
      (afterStart [':']) with
  | none => false
  | some rest => rest = name

def appliesToUser (user : User) (subject : Subject) (namespace_ : Str) : Bool :=
  match subject.kind with
  | .user => user.name = subject.name
  | .group => has user.groups subject.name
  | .serviceAccount =>
    let saNamespace := if subject.namespace ≠ [] then subject.namespace else namespace_
    saNamespace ≠ [] && matchesUsername saNamespace subject.name user.name
  | .other => false

/-- `appliesTo`: the first subject that applies. -/
def appliesTo (user : User) (bindingSubjects : List Subject) (namespace_ : Str) :
    Option Subject :=
  bindingSubjects.find? fun bindingSubject => appliesToUser user bindingSubject namespace_

variable (r : RuleResolver)

def RuleResolver.getRoleReferenceRules (roleRef : RoleRef)
    (bindingNamespace : Str) : Except ResolveError (List PolicyRule) :=
  match roleRef.kind with
  | .role => r.getRole bindingNamespace roleRef.name
  | .clusterRole => r.getClusterRole roleRef.name
  | .other kind => .error (.unsupportedKind kind)

/-- What a visitor is told: a rule with the binding and the subject it comes from, or an error. -/
inductive Visit where
  | rule (binding : Binding) (subject : Subject) (rule : PolicyRule)
  | error (err : ResolveError)

/-- A visitor changes its state, and says whether it wants to see more. -/
abbrev Visitor (σ : Type) := σ → Visit → σ × Bool

/-- The loop over the rules of a binding. The flag says whether the visiting goes on. -/
def visitRules {σ : Type} (visitor : Visitor σ) (binding : Binding) (subject : Subject) :
    List PolicyRule → σ → σ × Bool
  | [], s => (s, true)
  | rule :: rest, s =>
    match visitor s (.rule binding subject rule) with
    | (s, false) => (s, false)
    | (s, true) => visitRules visitor binding subject rest s

/-- The loops over bindings of `VisitRulesFor`. -/
def RuleResolver.visitBindings {σ : Type} (r : RuleResolver) (visitor : Visitor σ) (user : User)
    (namespace_ : Str) : List Binding → σ → σ × Bool
  | [], s => (s, true)
  | binding :: rest, s =>
    match appliesTo user binding.subjects namespace_ with
    | none => r.visitBindings visitor user namespace_ rest s
    | some subject =>
      let visited := match r.getRoleReferenceRules binding.roleRef namespace_ with
        | .error err => visitor s (.error err)
        | .ok rules => visitRules visitor binding subject rules s
      match visited with
      | (s, false) => (s, false)
      | (s, true) => r.visitBindings visitor user namespace_ rest s

/-- The bindings of one kind, or the error of their lister. -/
def RuleResolver.visitListed {σ : Type} (r : RuleResolver) (visitor : Visitor σ) (user : User)
    (namespace_ : Str) (listed : Except ResolveError (List Binding)) (s : σ) : σ × Bool :=
  match listed with
  | .error err => visitor s (.error err)
  | .ok bindings => r.visitBindings visitor user namespace_ bindings s

def RuleResolver.visitRulesFor {σ : Type} (r : RuleResolver) (user : User) (namespace_ : Str)
    (visitor : Visitor σ) (s : σ) : σ :=
  match r.visitListed visitor user [] r.listClusterRoleBindings s with
  | (s, false) => s
  | (s, true) =>
    if namespace_ ≠ [] then
      (r.visitListed visitor user namespace_ (r.listRoleBindings namespace_) s).1
    else s

/-- `ruleAccumulator.visit`. -/
def accumulate : Visitor (List PolicyRule × List ResolveError)
  | (rules, errors), .rule _ _ rule => ((rules ++ [rule], errors), true)
  | (rules, errors), .error err => ((rules, errors ++ [err]), true)

def RuleResolver.rulesFor (user : User) (namespace_ : Str) : List PolicyRule × List ResolveError :=
  r.visitRulesFor user namespace_ accumulate ([], [])

/-! ## The escalation check and the authorizer -/

/-- Why a role is not accepted. -/
inductive EscalationError where
  | noUser
  | notHeld (user : User) (missing : List PolicyRule) (resolutionErrors : List ResolveError)
deriving DecidableEq

/-- `ConfirmNoEscalation`, for the user and the namespace of the context. -/
def confirmNoEscalation (user : Option User) (namespace_ : Str)
    (rules : List PolicyRule) : Except EscalationError Unit :=
  match user with
  | none => .error .noUser
  | some user =>
    let owned := r.rulesFor user namespace_
    let covered := covers owned.1 rules
    if covered.1 then .ok () else .error (.notHeld user covered.2 owned.2)

/-- The result of `Authorize`: the binding and the subject that allow the request, or no opinion. -/
inductive Decision where
  | allow (binding : Binding) (subject : Subject)
  | noOpinion (errors : List ResolveError)
deriving DecidableEq

/-- `authorizingVisitor.visit`. -/
def authorizingVisitor : Visitor Decision
  | .allow binding subject, _ => (.allow binding subject, false)
  | .noOpinion errors, .rule binding subject rule =>
    if ruleAllows q rule then (.allow binding subject, false) else (.noOpinion errors, true)
  | .noOpinion errors, .error err => (.noOpinion (errors ++ [err]), true)

def RuleResolver.authorize (q : Attributes) : Decision :=
  r.visitRulesFor q.user q.namespace (authorizingVisitor q) (.noOpinion [])

end Kubernetes.Rbac
