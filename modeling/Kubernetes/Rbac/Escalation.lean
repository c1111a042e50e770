import Kubernetes.Rbac.Rules

/-! # Nobody grants what they do not have

`Covers` compares the texts of rules, `RuleAllows` reads the same texts as sets of requests. The
comparison is sound: if the rules of an owner cover the rules of a servant, every request that the
servant's rules allow is allowed by the owner's (`granted_of_covers`).

A visitor sees the rules of a user one by one and may stop. What it sees is a list that does not
depend on it (`visits`), so that the rules `ConfirmNoEscalation` collects are those that
`Authorize` looks at (`escalation_check_sound`). Stopping early loses nothing
(`authorize_agrees_with_rulesFor`).
-/

namespace Kubernetes.Rbac

open Bool List

/-! ## Texts -/

variable {set : List Str}

lemma has_iff {ele : Str} : has set ele = true ↔ ele ∈ set := by
  unfold has
  rw [any_eq_true]
  constructor
  · rintro ⟨s, hs, heq⟩
    rw [← of_decide_eq_true heq]
    exact hs
  · intro hmem
    exact ⟨ele, hmem, decide_eq_true rfl⟩

lemma hasAll_singleton {ele : Str} : hasAll set [ele] = true ↔ ele ∈ set := by
  unfold hasAll
  rw [all_cons, all_nil, Bool.and_true]
  exact has_iff

variable {s resource verb : Str}

lemma starMatches_iff {path : Str} :
    starMatches s path = true ↔ ['*'] <:+ s ∧ trimStars s <+: path := by
  unfold starMatches
  rw [and_eq_true, isSuffixOf_iff_suffix, isPrefixOf_iff_prefix]

/-- A start of a string that does not end in a star is a start without the stars at the end. -/
lemma isPrefix_trimStars {t : Str} (ht : ∀ init, t ≠ init ++ ['*']) (h : t <+: s) :
    t <+: trimStars s := by
  induction s using reverseRecOn with
  | nil => exact h
  | append_singleton s c ih =>
    unfold trimStars
    by_cases hc : c = '*'
    · rw [rdropWhile_concat, if_pos (decide_eq_true hc)]
      rcases prefix_concat_iff.1 h with heq | hshort
      · rw [hc] at heq
        exact absurd heq (ht s)
      · exact ih hshort
    · rw [rdropWhile_concat, if_neg (by simpa using hc)]
      exact h

lemma trimStars_ne_concat (s init : Str) : trimStars s ≠ init ++ ['*'] := by
  intro heq
  have hagain : trimStars (init ++ ['*']) = init ++ ['*'] := by
    rw [← heq]
    exact rdropWhile_idempotent _ _
  have hshort : trimStars (init ++ ['*']) <+: init := by
    unfold trimStars
    rw [rdropWhile_concat, if_pos (decide_eq_true rfl)]
    exact rdropWhile_prefix _ _
  rw [hagain] at hshort
  have hlen := hshort.length_le
  rw [length_append, length_singleton] at hlen
  omega

/-- What a covered URL matches is matched by the URL that covers it. -/
lemma ruleURLMatches_of_covers {ownerPath subPath path : Str}
    (hcovers : nonResourceURLCovers ownerPath subPath = true)
    (hsub : ruleURLMatches path subPath = true) : ruleURLMatches path ownerPath = true := by
  unfold nonResourceURLCovers at hcovers
  rw [or_eq_true, decide_eq_true_eq] at hcovers
  rcases hcovers with rfl | hcovers
  · exact hsub
  rcases starMatches_iff.1 hcovers with ⟨hstar, hstart⟩
  unfold ruleURLMatches at hsub ⊢
  rw [or_eq_true, or_eq_true, decide_eq_true_eq, decide_eq_true_eq] at hsub
  rw [or_eq_true]
  right
  rw [starMatches_iff]
  refine ⟨hstar, ?_⟩
  rcases hsub with (rfl | rfl) | hsub
  · -- the covered URL is a star, of which only the empty string is a start
    have hnil := isPrefix_trimStars (trimStars_ne_concat ownerPath) hstart
    rw [show trimStars all = [] from rfl, prefix_nil] at hnil
    rw [hnil]
    exact nil_prefix
  · exact hstart
  · exact (isPrefix_trimStars (trimStars_ne_concat ownerPath) hstart).trans
      (starMatches_iff.1 hsub).2

lemma afterSlash_append {t : Str} (h : '/' ∉ s) : afterSlash (s ++ '/' :: t) = t := by
  unfold afterSlash
  have hall : ∀ c ∈ s, (decide (c ≠ '/')) = true := by
    intro c hc
    rw [decide_eq_true_eq]
    rintro rfl
    exact h hc
  rw [dropWhile_append_of_pos hall]
  rfl

/-- The third way in which a resource of a rule matches. -/
lemma eq_star_subresource {ruleResource sub : Str}
    (hlen : ruleResource.length = sub.length + 2) (hstart : ['*', '/'] <+: ruleResource)
    (hend : sub <:+ ruleResource) : ruleResource = ['*', '/'] ++ sub := by
  rcases hstart with ⟨rest, rfl⟩
  rcases hend with ⟨init, heq⟩
  have hinit : init.length = 2 := by
    have hlen' := congrArg List.length heq
    rw [length_append] at hlen'
    omega
  have hsplit := append_inj heq (by rw [hinit]; rfl)
  rw [hsplit.2]

lemma ruleResourceMatches_star {comb sub : Str} (hsub : sub ≠ []) :
    ruleResourceMatches comb sub (['*', '/'] ++ sub) = true := by
  unfold ruleResourceMatches
  rw [or_eq_true]
  right
  simp only [and_eq_true, decide_eq_true_eq, isPrefixOf_iff_prefix, isSuffixOf_iff_suffix]
  refine ⟨⟨⟨hsub, ?_⟩, prefix_append _ _⟩, suffix_append _ _⟩
  rw [length_append, Nat.add_comm]
  rfl

variable {q : Attributes} {owner rule : PolicyRule}

/-- What a covered resource matches is matched by a resource that covers it. -/
lemma resourceMatches_of_covers (hq : '/' ∉ q.resource)
    (hcovers : resourceCoversAll owner.resources [resource] = true)
    (hsub : ruleResourceMatches q.combinedResource q.subresource resource = true) :
    resourceMatches owner q.combinedResource q.subresource = true := by
  unfold resourceMatches
  rw [any_eq_true]
  unfold resourceCoversAll at hcovers
  rw [all_cons, all_nil, Bool.and_true, Bool.or_eq_true, Bool.or_eq_true,
    Bool.or_eq_true, Bool.and_eq_true, decide_eq_true_eq, has_iff, has_iff, has_iff,
    hasAll_singleton] at hcovers
  rcases hcovers with (hall | hmem) | hmem | ⟨hslash, hstar⟩
  · exact ⟨all, hall, by unfold ruleResourceMatches; rfl⟩
  · exact ⟨resource, hmem, hsub⟩
  · exact ⟨resource, hmem, hsub⟩
  refine ⟨_, hstar, ?_⟩
  unfold ruleResourceMatches at hsub
  simp only [Bool.or_eq_true, Bool.and_eq_true, decide_eq_true_eq, isPrefixOf_iff_prefix,
    isSuffixOf_iff_suffix] at hsub
  rcases hsub with (rfl | rfl) | ⟨⟨⟨hne, hlen⟩, hstart⟩, hend⟩
  · -- a star has no slash
    exact absurd hslash (by decide)
  · unfold Attributes.combinedResource at hslash ⊢
    split_ifs at hslash with hne
    · rw [if_pos hne, afterSlash_append hq]
      exact ruleResourceMatches_star hne
    · exact absurd hslash hq
  · rw [eq_star_subresource hlen hstart hend]
    exact ruleResourceMatches_star hne

/-! ## Coverage -/

/-- A request that some rule of a list allows. -/
def granted (rules : List PolicyRule) : Set Attributes :=
  {q | ∃ rule ∈ rules, ruleAllows q rule = true}

/-- Texts of which one is the star or the one asked for. -/
lemma any_of_covers {text asked : Str} (hcovers : (has set all || hasAll set [text]) = true)
    (htext : text = all ∨ text = asked) :
    (set.any fun s => s = all || s = asked) = true := by
  rw [or_eq_true, has_iff, hasAll_singleton] at hcovers
  rw [any_eq_true]
  rcases hcovers with hall | hmem
  · exact ⟨all, hall, rfl⟩
  · refine ⟨text, hmem, ?_⟩
    rw [or_eq_true, decide_eq_true_eq, decide_eq_true_eq]
    exact htext

/-- The text by which a rule allows a verb or a group. -/
lemma exists_of_any {asked : Str} (h : (set.any fun s => s = all || s = asked) = true) :
    ∃ text ∈ set, text = all ∨ text = asked := by
  rcases any_eq_true.1 h with ⟨text, hmem, htext⟩
  rw [or_eq_true, decide_eq_true_eq, decide_eq_true_eq] at htext
  exact ⟨text, hmem, htext⟩

/-- The name by which a rule allows a request, if it has names. -/
def namesFor (rule : PolicyRule) (name : Str) : List Str :=
  if rule.resourceNames ≠ [] then [name] else []

lemma mem_breakdown_resource {group name : Str} (hgroup : group ∈ rule.apiGroups)
    (hresource : resource ∈ rule.resources) (hverb : verb ∈ rule.verbs)
    (hname : resourceNameMatches rule name = true) :
    { apiGroups := [group], resources := [resource], verbs := [verb],
      resourceNames := namesFor rule name : PolicyRule } ∈ breakdownRule rule := by
  unfold breakdownRule
  refine mem_append_left _ (mem_flatMap.2 ⟨group, hgroup, mem_flatMap.2
    ⟨resource, hresource, mem_flatMap.2 ⟨verb, hverb, ?_⟩⟩⟩)
  unfold namesFor
  split_ifs with hne
  · unfold resourceNameMatches at hname
    rw [or_eq_true, decide_eq_true_eq, any_eq_true] at hname
    rcases hname.resolve_left hne with ⟨ruleName, hmem, heq⟩
    exact mem_map.2 ⟨ruleName, hmem, by rw [of_decide_eq_true heq]⟩
  · exact mem_singleton_self _

lemma mem_breakdown_url {url : Str} (hurl : url ∈ rule.nonResourceURLs)
    (hverb : verb ∈ rule.verbs) :
    { nonResourceURLs := [url], verbs := [verb] : PolicyRule } ∈ breakdownRule rule :=
  mem_append_right _ (mem_flatMap.2 ⟨url, hurl, mem_map.2 ⟨verb, hverb, rfl⟩⟩)

variable {ownerRules servantRules : List PolicyRule}

/-- Every part of a covered rule is covered by one rule of the owner. -/
lemma exists_ruleCovers
    (h : (covers ownerRules servantRules).1 = true) {sub : PolicyRule} (hrule : rule ∈ servantRules)
    (hsub : sub ∈ breakdownRule rule) :
    ∃ owner ∈ ownerRules, ruleCovers owner sub = true := by
  unfold covers at h
  have hnil := length_eq_zero_iff.1 (of_decide_eq_true h)
  have hcovered := filter_eq_nil_iff.1 hnil sub (mem_flatMap.2 ⟨rule, hrule, hsub⟩)
  rw [not_eq_true', not_eq_false, any_eq_true] at hcovered
  exact hcovered

lemma ruleAllows_of_resource (hq : '/' ∉ q.resource) (hkind : q.isResourceRequest = true)
    {group : Str} (hgroup : group = all ∨ group = q.apiGroup)
    (hresource : ruleResourceMatches q.combinedResource q.subresource resource = true)
    (hverb : verb = all ∨ verb = q.verb) (hcovers : ruleCovers owner
      { apiGroups := [group], resources := [resource], verbs := [verb],
        resourceNames := namesFor rule q.name } = true) :
    ruleAllows q owner = true := by
  unfold ruleCovers at hcovers
  simp only [and_eq_true] at hcovers
  rcases hcovers with ⟨⟨⟨⟨hverbs, hgroups⟩, hres⟩, hnames⟩, -⟩
  unfold ruleAllows
  rw [if_pos hkind]
  simp only [and_eq_true]
  refine ⟨⟨⟨any_of_covers hverbs hverb, any_of_covers hgroups hgroup⟩,
    resourceMatches_of_covers hq hres hresource⟩, ?_⟩
  unfold resourceNameMatches
  rw [or_eq_true, decide_eq_true_eq, any_eq_true]
  unfold namesFor at hnames
  by_cases hnone : rule.resourceNames = []
  · rw [if_neg (not_not.2 hnone), if_pos rfl] at hnames
    exact Or.inl (of_decide_eq_true hnames)
  · rw [if_pos hnone, if_neg (cons_ne_nil _ _), or_eq_true, decide_eq_true_eq,
      hasAll_singleton] at hnames
    exact hnames.imp_right fun hmem => ⟨q.name, hmem, decide_eq_true rfl⟩

lemma ruleAllows_of_url (hkind : q.isResourceRequest = false) {url : Str}
    (hurl : ruleURLMatches q.path url = true) (hverb : verb = all ∨ verb = q.verb)
    (hcovers : ruleCovers owner { nonResourceURLs := [url], verbs := [verb] } = true) :
    ruleAllows q owner = true := by
  unfold ruleCovers at hcovers
  simp only [Bool.and_eq_true] at hcovers
  rcases hcovers with ⟨⟨⟨⟨hverbs, -⟩, -⟩, -⟩, hurls⟩
  unfold ruleAllows
  rw [if_neg (by rw [hkind]; decide), Bool.and_eq_true]
  refine ⟨any_of_covers hverbs hverb, ?_⟩
  unfold nonResourceURLsCoversAll at hurls
  rw [all_cons, all_nil, Bool.and_true, any_eq_true] at hurls
  rcases hurls with ⟨ownerPath, hmem, hpath⟩
  exact any_eq_true.2 ⟨ownerPath, hmem, ruleURLMatches_of_covers hpath hurl⟩

/-- Coverage is sound: a request that a covered rule allows is allowed by a rule of the owner. -/
theorem granted_of_covers
    (h : (covers ownerRules servantRules).1 = true) (hq : '/' ∉ q.resource)
    (hgranted : q ∈ granted servantRules) : q ∈ granted ownerRules := by
  rcases hgranted with ⟨rule, hrule, hallows⟩
  unfold ruleAllows at hallows
  split_ifs at hallows with hkind
  · simp only [and_eq_true] at hallows
    rcases hallows with ⟨⟨⟨hverbs, hgroups⟩, hres⟩, hnames⟩
    rcases exists_of_any hverbs with ⟨verb, hverb, hverb'⟩
    rcases exists_of_any hgroups with ⟨group, hgroup, hgroup'⟩
    rcases any_eq_true.1 hres with ⟨resource, hresource, hresource'⟩
    rcases exists_ruleCovers h hrule (mem_breakdown_resource hgroup hresource hverb hnames) with
      ⟨owner, howner, hcovers⟩
    exact ⟨owner, howner, ruleAllows_of_resource hq hkind hgroup' hresource' hverb' hcovers⟩
  · rw [and_eq_true] at hallows
    rcases hallows with ⟨hverbs, hurls⟩
    rcases exists_of_any hverbs with ⟨verb, hverb, hverb'⟩
    rcases any_eq_true.1 hurls with ⟨url, hurl, hurl'⟩
    rcases exists_ruleCovers h hrule (mem_breakdown_url hurl hverb) with ⟨owner, howner, hcovers⟩
    exact ⟨owner, howner,
      ruleAllows_of_url (eq_false_iff.2 hkind) hurl' hverb' hcovers⟩

/-! ## Visiting rules -/

section

variable {σ : Type} (r : RuleResolver) (visitor : Visitor σ) (user : User)

/-- A visitor sees visits one by one until it wants no more. -/
def visitEach : List Visit → σ → σ × Bool
  | [], s => (s, true)
  | v :: rest, s =>
    match visitor s v with
    | (s, false) => (s, false)
    | (s, true) => visitEach rest s

variable (namespace_ : Str)

/-- The visits for a binding. -/
def bindingVisits (binding : Binding) : List Visit :=
  match appliesTo user binding.subjects namespace_ with
  | none => []
  | some subject =>
    match r.getRoleReferenceRules binding.roleRef namespace_ with
    | .error err => [.error err]
    | .ok rules => rules.map (.rule binding subject)

/-- The visits for bindings of one kind. -/
def listedVisits : Except ResolveError (List Binding) → List Visit
  | .error err => [.error err]
  | .ok bindings => bindings.flatMap (bindingVisits r user namespace_)

/-- All visits for a user in a namespace. -/
def visits : List Visit :=
  listedVisits r user [] r.listClusterRoleBindings ++
    if namespace_ ≠ [] then listedVisits r user namespace_ (r.listRoleBindings namespace_) else []

lemma visitEach_cons (v : Visit) (vs : List Visit) (s : σ) : visitEach visitor (v :: vs) s =
    match visitor s v with
    | (s, false) => (s, false)
    | (s, true) => visitEach visitor vs s := rfl

lemma visitEach_append (vs ws : List Visit) (s : σ) :
    visitEach visitor (vs ++ ws) s =
      if (visitEach visitor vs s).2 then visitEach visitor ws (visitEach visitor vs s).1
      else visitEach visitor vs s := by
  induction vs generalizing s with
  | nil => rfl
  | cons v vs ih =>
    rw [cons_append, visitEach_cons, visitEach_cons]
    rcases visitor s v with ⟨s', _ | _⟩
    · rfl
    · exact ih s'

lemma visitRules_eq (binding : Binding) (subject : Subject) (rules : List PolicyRule) (s : σ) :
    visitRules visitor binding subject rules s =
      visitEach visitor (rules.map (.rule binding subject)) s := by
  induction rules generalizing s with
  | nil => rfl
  | cons rule rules ih =>
    rw [map_cons, visitEach_cons]
    unfold visitRules
    rcases visitor s (.rule binding subject rule) with ⟨s', _ | _⟩
    · rfl
    · exact ih s'

lemma visitEach_singleton (v : Visit) (s : σ) : visitEach visitor [v] s = visitor s v := by
  unfold visitEach
  rcases visitor s v with ⟨s', _ | _⟩
  · rfl
  · rfl

lemma visitBindings_eq (bindings : List Binding) (s : σ) :
    r.visitBindings visitor user namespace_ bindings s =
      visitEach visitor (bindings.flatMap (bindingVisits r user namespace_)) s := by
  induction bindings generalizing s with
  | nil => rfl
  | cons binding bindings ih =>
    rw [flatMap_cons, visitEach_append]
    unfold RuleResolver.visitBindings bindingVisits
    cases appliesTo user binding.subjects namespace_ with
    | none => exact ih s
    | some subject =>
      cases r.getRoleReferenceRules binding.roleRef namespace_ with
      | error err =>
        dsimp only
        rw [visitEach_singleton]
        rcases visitor s (.error err) with ⟨s', _ | _⟩
        · rfl
        · exact ih s'
      | ok rules =>
        dsimp only
        rw [visitRules_eq]
        rcases visitEach visitor (rules.map (.rule binding subject)) s with ⟨s', _ | _⟩
        · rfl
        · exact ih s'

lemma visitListed_eq (listed : Except ResolveError (List Binding)) (s : σ) :
    r.visitListed visitor user namespace_ listed s =
      visitEach visitor (listedVisits r user namespace_ listed) s := by
  cases listed with
  | error err => exact (visitEach_singleton visitor (.error err) s).symm
  | ok bindings => exact visitBindings_eq r visitor user namespace_ bindings s

/-- What a visitor sees does not depend on it, except for where it stops. -/
lemma visitRulesFor_eq (s : σ) :
    r.visitRulesFor user namespace_ visitor s =
      (visitEach visitor (visits r user namespace_) s).1 := by
  unfold RuleResolver.visitRulesFor visits
  rw [visitEach_append, visitListed_eq]
  rcases visitEach visitor (listedVisits r user [] r.listClusterRoleBindings) s with ⟨s', _ | _⟩
  · rfl
  dsimp only
  rw [if_pos rfl]
  split
  · rw [visitListed_eq]
  · rfl

end

def rulesOf (vs : List Visit) : List PolicyRule :=
  vs.filterMap fun v => match v with
    | .rule _ _ rule => some rule
    | .error _ => none

/-- The rules that `VisitRulesFor` enumerates. -/
def enumerated (r : RuleResolver) (user : User) (namespace_ : Str) : List PolicyRule :=
  rulesOf (visits r user namespace_)

lemma visitEach_accumulate (vs : List Visit) (rules : List PolicyRule)
    (errors : List ResolveError) :
    (visitEach accumulate vs (rules, errors)).1.1 = rules ++ rulesOf vs := by
  induction vs generalizing rules errors with
  | nil => exact (append_nil rules).symm
  | cons v vs ih =>
    cases v with
    | rule binding subject rule =>
      refine (ih (rules ++ [rule]) errors).trans ?_
      rw [append_assoc]
      rfl
    | error err => exact ih rules (errors ++ [err])

/-- `RulesFor` collects them all. -/
lemma rulesFor_eq (r : RuleResolver) (user : User) (namespace_ : Str) :
    (r.rulesFor user namespace_).1 = enumerated r user namespace_ := by
  unfold RuleResolver.rulesFor
  rw [visitRulesFor_eq, visitEach_accumulate]
  rfl

lemma visitEach_authorizing {vs : List Visit} (errors : List ResolveError)
    (h : q ∈ granted (rulesOf vs)) :
    ∃ binding subject,
      (visitEach (authorizingVisitor q) vs (.noOpinion errors)).1 = .allow binding subject := by
  induction vs generalizing errors with
  | nil =>
    rcases h with ⟨rule, hrule, -⟩
    cases hrule
  | cons v vs ih =>
    cases v with
    | rule binding subject rule =>
      have hvisit : authorizingVisitor q (.noOpinion errors) (.rule binding subject rule) =
          if ruleAllows q rule then (.allow binding subject, false) else (.noOpinion errors, true) :=
        rfl
      rw [visitEach_cons, hvisit]
      split_ifs with hallows
      · exact ⟨binding, subject, rfl⟩
      refine ih errors ?_
      rcases h with ⟨rule', hrule', hallows'⟩
      rcases mem_cons.1 hrule' with rfl | hrule'
      · exact absurd hallows' hallows
      · exact ⟨rule', hrule', hallows'⟩
    | error err => exact ih (errors ++ [err]) h

/-- A request that an enumerated rule allows is authorized. -/
lemma authorize_of_granted {r : RuleResolver}
    (h : q ∈ granted (enumerated r q.user q.namespace)) :
    ∃ binding subject, r.authorize q = .allow binding subject := by
  unfold RuleResolver.authorize
  rw [visitRulesFor_eq]
  exact visitEach_authorizing [] h

lemma visitEach_noOpinion {vs : List Visit} (h : q ∉ granted (rulesOf vs))
    (seen : List PolicyRule × List ResolveError) :
    (visitEach (authorizingVisitor q) vs (.noOpinion seen.2)).1 =
      .noOpinion (visitEach accumulate vs seen).1.2 := by
  induction vs generalizing seen with
  | nil => rfl
  | cons v vs ih =>
    cases v with
    | rule binding subject rule =>
      rcases not_or.1 (mt (exists_mem_cons_iff _ _ _).2 h) with ⟨hrule, hrest⟩
      rw [visitEach_cons, authorizingVisitor, if_neg hrule]
      exact ih hrest (seen.1 ++ [rule], seen.2)
    | error err => exact ih h (seen.1, seen.2 ++ [err])

/-- `Authorize` stops at the first rule that allows the request, and yet agrees with `RulesFor`,
which collects them all: without such a rule it reports the same errors. -/
theorem authorize_agrees_with_rulesFor (r : RuleResolver) (q : Attributes) :
    if rulesAllow q (r.rulesFor q.user q.namespace).1 then
      ∃ binding subject, r.authorize q = .allow binding subject
    else r.authorize q = .noOpinion (r.rulesFor q.user q.namespace).2 := by
  rw [rulesFor_eq]
  split_ifs with h
  · exact authorize_of_granted (any_eq_true.1 h)
  unfold RuleResolver.authorize RuleResolver.rulesFor
  rw [visitRulesFor_eq, visitRulesFor_eq]
  exact visitEach_noOpinion (mt any_eq_true.2 h) ([], [])

/-- The rules of the whole cluster are enumerated in every namespace. -/
lemma enumerated_cluster {r : RuleResolver} {user : User} (h : rule ∈ enumerated r user [])
    (namespace_ : Str) : rule ∈ enumerated r user namespace_ := by
  unfold enumerated rulesOf visits at h ⊢
  rw [if_neg (not_not.2 rfl), append_nil] at h
  rw [filterMap_append]
  exact mem_append_left _ h

/-- The escalation check is sound. If the rules of an owner cover those of a servant, they grant
every request that these grant; and if a role is accepted from a user in a namespace, or for the
whole cluster, every request of that user there that the role would grant is granted by the rules
enumerated for the user, and authorized. -/
theorem escalation_check_sound :
    (∀ ownerRules servantRules, (covers ownerRules servantRules).1 = true →
      ∀ q : Attributes, '/' ∉ q.resource →
        (∃ rule ∈ servantRules, ruleAllows q rule = true) →
          ∃ rule ∈ ownerRules, ruleAllows q rule = true) ∧
      ∀ (r : RuleResolver) (user : Option User) (namespace_ : Str) (rules : List PolicyRule),
        confirmNoEscalation r user namespace_ rules = .ok () →
          ∀ q : Attributes, some q.user = user → q.namespace = namespace_ ∨ namespace_ = [] →
            '/' ∉ q.resource → (∃ rule ∈ rules, ruleAllows q rule = true) →
              (∃ rule ∈ enumerated r q.user q.namespace, ruleAllows q rule = true) ∧
                ∃ binding subject, r.authorize q = .allow binding subject := by
  refine ⟨fun _ _ h _ hq hgranted => granted_of_covers h hq hgranted, ?_⟩
  rintro r user namespace_ rules haccept q rfl hscope hq hgranted
  have hcovers : (covers (enumerated r q.user namespace_) rules).1 = true := by
    unfold confirmNoEscalation at haccept
    dsimp only at haccept
    rw [rulesFor_eq] at haccept
    split_ifs at haccept
    assumption
  have hheld : q ∈ granted (enumerated r q.user q.namespace) := by
    rcases granted_of_covers hcovers hq hgranted with ⟨rule, hrule, hallows⟩
    rcases hscope with rfl | rfl
    · exact ⟨rule, hrule, hallows⟩
    · exact ⟨rule, enumerated_cluster hrule q.namespace, hallows⟩
  exact ⟨hheld, authorize_of_granted hheld⟩

/-- A cluster with one binding, that lets a user read and write every status. -/
def statusResolver : RuleResolver where
  getRole _ _ := .error (.lister [])
  getClusterRole _ :=
    .ok [{ verbs := [all], apiGroups := [[]], resources := ["*/status".toList] }]
  listRoleBindings _ := .ok []
  listClusterRoleBindings :=
    .ok [⟨"status".toList, [], [⟨.user, "alice".toList, []⟩], ⟨.clusterRole, "status".toList⟩⟩]

/-- A request for the status of a pod. -/
def podStatus : Attributes :=
  ⟨⟨"alice".toList, []⟩, "get".toList, "default".toList, [], "pods".toList, "status".toList,
    "web".toList, [], true⟩

theorem escalation_check_sound_status :
    confirmNoEscalation statusResolver (some ⟨"alice".toList, []⟩) []
        [{ verbs := ["get".toList], apiGroups := [[]], resources := ["pods/status".toList] }] =
      .ok () ∧
      ∃ binding subject, statusResolver.authorize podStatus = .allow binding subject := by
  have haccept : confirmNoEscalation statusResolver (some ⟨"alice".toList, []⟩) []
      [{ verbs := ["get".toList], apiGroups := [[]], resources := ["pods/status".toList] }] =
        .ok () := by
    decide +kernel
  exact ⟨haccept, (escalation_check_sound.2 statusResolver _ [] _ haccept podStatus rfl (Or.inr rfl)
    (by decide +kernel) (by decide +kernel)).2⟩

end Kubernetes.Rbac
