import Kubernetes.Apiserver.QuotaCheck

/-! # Admitted requests are charged

A request that is left with a nil result should have been charged to every quota that matches it and
limits a resource of its usage delta.

Within a round this holds: a request that passes is part of the usage of each quota that concerns it
(`Account`), so those quotas are updated. Across rounds it does not. A retry checks the whole batch
against the quotas whose updates failed, and a request that changes none of these gets a nil result,
also when an earlier round has rejected it (`rejected_request_admitted`). Nor is it charged to a
quota that is read again without the limits it had. If no round overlooks a rejection in this way,
and quotas that concern the request still do when they are read again, admitted requests are charged
(`admitted_is_charged`).
-/

namespace Kubernetes.Apiserver.Quota

open CountMap GoMap
open List hiding count

variable {S : Type} {c : Config S}

/-! ## Usage deltas -/

/-- The usage delta of a request. -/
def delta (c : Config S) (a : Attributes S) : ResourceList :=
  match c.registry a.resource with
  | none => ∅
  | some evaluator =>
    match deltaUsage evaluator a.withNamespace with
    | .ok usage => usage
    | .error _ => ∅

/-- The namespace is all that is set, and once. -/
lemma withNamespace_spec (a : Attributes S) : a.withNamespace.resource = a.resource ∧
    a.withNamespace.isDryRun = a.isDryRun ∧ a.withNamespace.withNamespace = a.withNamespace := by
  rcases a with ⟨resource, nspace, operation, ⟨_ | m, spec⟩, oldObject, isDryRun⟩
  · exact ⟨rfl, rfl, rfl⟩
  · by_cases h : nspace ≠ [] ∧ m.nspace = []
    · simp [Attributes.withNamespace, h]
    · simp [Attributes.withNamespace, h]

lemma delta_withNamespace (a : Attributes S) : delta c a.withNamespace = delta c a := by
  unfold delta
  rw [(withNamespace_spec a).1, (withNamespace_spec a).2.2]

variable {evaluator : Evaluator S} {a : Attributes S}

lemma positive_deltaUsage {usage : ResourceList} (h : deltaUsage evaluator a = .ok usage) :
    Positive usage := by
  unfold deltaUsage at h
  rcases bind_eq_ok.1 h with ⟨total, -, h⟩
  split at h
  · cases h
  rename_i hneg
  rw [not_not] at hneg
  have htotal : ∀ k v, total.lookup k = some v → 0 ≤ v :=
    fun k v hk => nonneg_of_isNegative_nil hneg hk
  split at h
  · split at h
    · cases h
    rename_i prevItem _
    rcases bind_eq_ok.1 h with ⟨diff, hdiff, h⟩
    cases h
    apply positive_removeZeros
    unfold subtractPrevious at hdiff
    split at hdiff
    · split at hdiff
      · rcases bind_eq_ok.1 hdiff with ⟨prev, -, hdiff⟩
        cases hdiff
        exact lookup_subtract _ _
      · cases hdiff
        exact htotal
    · cases hdiff
      exact htotal
  · cases h
    exact positive_removeZeros htotal

lemma positive_delta (a : Attributes S) : Positive (delta c a) := by
  unfold delta
  split
  · exact positive_empty
  split
  · rename_i h
    exact positive_deltaUsage h
  · exact positive_empty

/-! ## One request -/

/-- A quota is charged with a usage delta, and does not exceed its limits for it. -/
structure Charge (d : ResourceList) (q q' : ResourceQuota) : Prop where
  eq : q' = { q with used := add q.used (mask d q.hard.keys) }
  within : ∀ k ∈ q.hard.keys, k ∈ d.keys → count q'.used k ≤ count q.hard k

variable {k : ResourceName}

lemma count_of_lookup {m : ResourceList} {v : ℤ} (h : m.lookup k = some v) :
    count m k = v := by
  unfold count
  rw [h]
  rfl

lemma lookup_of_mem {m : ResourceList} (h : k ∈ m.keys) :
    m.lookup k = some (count m k) := by
  rcases mem_iff_lookup.1 (AList.mem_keys.2 h) with ⟨v, hv⟩
  rw [hv, count_of_lookup hv]

lemma mem_keys_add {a b : ResourceList} (h : k ∈ b.keys) :
    k ∈ (add a b).keys := by
  have hmissing := lookup_foldl_missing (fun _ value => value) b
  have hlookup := lookup_of_mem h
  rw [← AList.mem_keys, ← AList.lookup_isSome]
  unfold add
  rw [hmissing, hlookup]
  generalize AList.lookup k _ = old
  cases old <;> rfl

lemma mem_keys_mask {a : ResourceList} {names : List ResourceName} :
    k ∈ (mask a names).keys ↔ k ∈ names ∧ k ∈ a.keys := by
  rw [← AList.mem_keys, ← AList.mem_keys, ← AList.lookup_isSome, ← AList.lookup_isSome, lookup_mask]
  by_cases hk : k ∈ names
  · simp [hk]
  · simp [hk]

variable {d : ResourceList} {new : List ResourceQuota} {q : ResourceQuota}

variable {quotas : List ResourceQuota} {i : ℕ}

/-- The body of the loop over the pertinent quotas charges its quota and keeps the others. -/
lemma chargeQuota_ok (h : chargeQuota d quotas i = .ok new) :
    new.length = quotas.length ∧ ∀ j q, quotas[j]? = some q → ∃ q', new[j]? = some q' ∧
      (j = i → Charge d q q') ∧ (j ≠ i → q' = q) := by
  unfold chargeQuota at h
  split at h
  · rename_i hnone
    cases h
    refine ⟨rfl, fun j q hq => ⟨q, hq, ?_, fun _ => rfl⟩⟩
    rintro rfl
    rw [hnone] at hq
    cases hq
  rename_i quota hquota
  dsimp only at h
  split at h
  · rename_i hexceeded
    cases h
    refine ⟨length_set, fun j q hq => ?_⟩
    by_cases hji : j = i
    · subst hji
      rw [hquota] at hq
      cases hq
      refine ⟨_, getElem?_set_self (List.getElem?_eq_some_iff.1 hquota).1, ?_,
        fun h => absurd rfl h⟩
      refine fun _ => ⟨rfl, fun k hhard hd => ?_⟩
      have hreq : k ∈ (mask d quota.hard.keys).keys := mem_keys_mask.2 ⟨hhard, hd⟩
      apply le_of_exceeded_nil hexceeded (k := k)
      · rw [lookup_mask, if_pos hreq]
        exact lookup_of_mem (mem_keys_add hreq)
      · exact lookup_of_mem hhard
    · refine ⟨q, ?_, fun h => absurd h hji, fun _ => rfl⟩
      rw [getElem?_set_ne (Ne.symm hji)]
      exact hq
  · cases h

/-- The loop over the pertinent quotas charges each of them, and no other. -/
lemma chargeQuotas_ok {indexes : List ℕ} (hnodup : indexes.Nodup)
    (h : indexes.foldlM (chargeQuota d) quotas = .ok new) :
    new.length = quotas.length ∧ ∀ j q, quotas[j]? = some q → ∃ q', new[j]? = some q' ∧
      (j ∈ indexes → Charge d q q') ∧ (j ∉ indexes → q' = q) := by
  induction indexes generalizing quotas with
  | nil =>
    cases h
    refine ⟨rfl, ?_⟩
    intro j q hq
    exact ⟨q, hq, fun h => absurd h not_mem_nil, fun _ => rfl⟩
  | cons i indexes ih =>
    rw [foldlM_cons] at h
    rcases bind_eq_ok.1 h with ⟨middle, hmiddle, h⟩
    rcases nodup_cons.1 hnodup with ⟨hi, hrest⟩
    rcases ih hrest h with ⟨hlength, hget⟩
    rcases chargeQuota_ok hmiddle with ⟨hlength', hfirst⟩
    refine ⟨hlength.trans hlength', ?_⟩
    intro j q hq
    rcases hfirst j q hq with ⟨q', hmid, hself, hother⟩
    rcases hget j q' hmid with ⟨q'', hnew, hcharge, hsame⟩
    by_cases hji : j = i
    · subst hji
      rw [hsame hi] at hnew
      exact ⟨q', hnew, fun _ => hself rfl, fun h => absurd mem_cons_self h⟩
    rw [hother hji] at hcharge hsame
    refine ⟨q'', hnew, ?_, ?_⟩
    · intro hj
      exact hcharge ((mem_cons.1 hj).resolve_left hji)
    · intro hj
      exact hsame fun hj' => hj (mem_cons_of_mem _ hj')

/-- The evaluator says that a quota matches. -/
def doesMatch (evaluator : Evaluator S) (object : Object S) (q : ResourceQuota) : Bool :=
  match evaluator.matchesQuota q object with
  | .ok b => b
  | .error _ => false

variable {found : Pertinent}

lemma examineQuota_ok {object : Object S} {found' : Pertinent}
    (h : examineQuota evaluator object found (q, i) = .ok found') :
    found'.interestingQuotaIndexes = found.interestingQuotaIndexes ++
      if doesMatch evaluator object q then [i] else [] := by
  unfold examineQuota at h
  rcases bind_eq_ok.1 h with ⟨scopes, -, h⟩
  rcases bind_eq_ok.1 h with ⟨b, hmatch, h⟩
  have hdoes : doesMatch evaluator object q = b := by
    unfold doesMatch
    rw [mapError_eq_ok.1 hmatch]
  rw [hdoes]
  cases b with
  | false =>
    cases h
    exact (append_nil _).symm
  | true =>
    rw [if_pos rfl] at h
    rcases bind_eq_ok.1 h with ⟨_, -, h⟩
    split_ifs at h
    cases h
    rfl

lemma pertinent_indexes {object : Object S} {l : List (ResourceQuota × ℕ)} {found' : Pertinent}
    (h : l.foldlM (examineQuota evaluator object) found = .ok found') :
    found'.interestingQuotaIndexes = found.interestingQuotaIndexes ++
      (l.filter fun e => doesMatch evaluator object e.1).map (·.2) := by
  induction l generalizing found with
  | nil =>
    cases h
    exact (append_nil _).symm
  | cons e l ih =>
    rw [foldlM_cons] at h
    rcases bind_eq_ok.1 h with ⟨middle, hmiddle, h⟩
    rw [ih h, examineQuota_ok hmiddle, filter_cons]
    cases doesMatch evaluator object e.1 <;> simp

/-- A quota that concerns a request: it matches and limits a resource of the usage delta. -/
def Concerns (c : Config S) (a : Attributes S) (q : ResourceQuota) : Prop :=
  ∃ evaluator, c.registry a.resource = some evaluator ∧ evaluator.handles a = true ∧
    evaluator.matchesQuota q a.object = .ok true ∧ ∃ k ∈ q.hard.keys, k ∈ (delta c a).keys

instance (c : Config S) (a : Attributes S) (q : ResourceQuota) : Decidable (Concerns c a q) :=
  inferInstanceAs (Decidable (∃ evaluator ∈ c.registry a.resource, _ ∧ _))

/-- What a check that passes does to the quotas. -/
def Charged (c : Config S) (a : Attributes S) (quotas new : List ResourceQuota) : Prop :=
  new.length = quotas.length ∧ ∀ (j : ℕ) q, quotas[j]? = some q → ∃ q', new[j]? = some q' ∧
    (q' = q ∨ Charge (delta c a) q q') ∧ (Concerns c a q → Charge (delta c a) q q')

/-- Matching scopes never fails. -/
def Config.ScopesMatch (c : Config S) : Prop :=
  ∀ resource evaluator, c.registry resource = some evaluator → ∀ object scopes,
    ∃ matched, evaluator.matchingScopes object scopes = .ok matched

lemma getMatchedLimitedScopes_ok (hscopes : c.ScopesMatch) {resource : GroupResource}
    (heval : c.registry resource = some evaluator) (object : Object S)
    (limited : List LimitedResource) :
    ∃ scopes, getMatchedLimitedScopes evaluator object limited = .ok scopes := by
  unfold getMatchedLimitedScopes
  generalize ([] : List ScopeRequirement) = start
  induction limited generalizing start with
  | nil => exact ⟨start, rfl⟩
  | cons limitedResource limited ih =>
    rcases hscopes resource evaluator heval object limitedResource.matchScopes with ⟨m, hm⟩
    rw [foldlM_cons, hm]
    exact ih (start ++ m)

lemma chargeRequest_ok {limitedScopes : List ScopeRequirement} {limitedNames : List ResourceName}
    (heval : c.registry a.resource = some evaluator)
    (hfound : pertinentQuotas evaluator a.object quotas = .ok found)
    (h : chargeRequest evaluator limitedScopes limitedNames quotas a.withNamespace found =
      .ok new) : Charged c a quotas new := by
  unfold chargeRequest at h
  rcases bind_eq_ok.1 h with ⟨usage, husage, h⟩
  have hdelta : delta c a = usage := by
    unfold delta
    rw [heval]
    dsimp only
    rw [husage]
  split_ifs at h with hkeys
  · cases h
    refine ⟨rfl, ?_⟩
    intro j q hq
    refine ⟨q, hq, .inl rfl, ?_⟩
    rintro ⟨-, -, -, -, k, -, hk⟩
    rw [hdelta, hkeys] at hk
    exact absurd hk not_mem_nil
  dsimp only at h
  split at h
  · cases h
  rcases bind_eq_ok.1 h with ⟨scopes, -, h⟩
  split_ifs at h
  have hindexes := pertinent_indexes hfound
  rw [nil_append] at hindexes
  have hnodup : found.interestingQuotaIndexes.Nodup := by
    rw [hindexes]
    refine List.Nodup.sublist (filter_sublist.map _) ?_
    rw [zipIdx_map_snd]
    exact nodup_range'
  rcases chargeQuotas_ok hnodup h with ⟨hlength, hget⟩
  refine ⟨hlength, ?_⟩
  intro j q hq
  rcases hget j q hq with ⟨q', hq', hcharge, hsame⟩
  rw [hdelta]
  refine ⟨q', hq', ?_, ?_⟩
  · by_cases hj : j ∈ found.interestingQuotaIndexes
    · exact .inr (hcharge hj)
    · exact .inl (hsame hj)
  rintro ⟨evaluator', heval', -, hmatch, -⟩
  rw [heval] at heval'
  cases heval'
  apply hcharge
  rw [hindexes, mem_map]
  refine ⟨(q, j), mem_filter.2 ⟨mem_zipIdx_iff_getElem?.2 hq, ?_⟩, rfl⟩
  unfold doesMatch
  rw [hmatch]

/-- A check changes no more of a request than the namespace of its object. -/
lemma checkRequest_attributes (c : Config S) (quotas : List ResourceQuota) (a : Attributes S) :
    (checkRequest c quotas a).1 = a ∨ (checkRequest c quotas a).1 = a.withNamespace := by
  unfold checkRequest
  split
  · exact .inl rfl
  rename_i evaluator _
  fun_cases checkRequestWith evaluator c.limitedResources quotas a with
  | case4 => exact .inr rfl
  | _ => exact .inl rfl

/-- A check that passes charges the quotas that concern the request. -/
lemma checkRequest_ok (hscopes : c.ScopesMatch) (h : (checkRequest c quotas a).2 = .ok new) :
    Charged c a quotas new := by
  have hsame : (∀ q, ¬Concerns c a q) → Charged c a quotas quotas := by
    intro hnone
    refine ⟨rfl, ?_⟩
    intro j q hq
    exact ⟨q, hq, .inl rfl, fun h => absurd h (hnone q)⟩
  unfold checkRequest at h
  split at h
  · rename_i heval
    cases h
    apply hsame
    rintro q ⟨evaluator, hsome, -⟩
    rw [heval] at hsome
    cases hsome
  rename_i evaluator heval
  unfold checkRequestWith at h
  split_ifs at h with hhandles
  · rcases getMatchedLimitedScopes_ok hscopes heval a.object c.limitedResources with
      ⟨scopes, hok⟩
    rw [hok] at h
    dsimp only at h
    split at h
    · cases h
    split at h
    · cases h
    · rename_i hfound
      exact chargeRequest_ok heval hfound h
  · cases h
    apply hsame
    rintro q ⟨evaluator', hsome, hhandles', -⟩
    rw [heval] at hsome
    cases hsome
    exact hhandles hhandles'

/-! ## The loop over waiters -/

/-- A waiter after its check against quotas. -/
def Waiter.afterCheck (c : Config S) (quotas : List ResourceQuota) (w : Waiter S) : Waiter S :=
  match checkRequest c quotas w.attributes with
  | (a, .error err) => ⟨a, .rejected err⟩
  | (a, .ok newQuotas) =>
    if a.isDryRun then ⟨a, .admitted⟩
    else if usageChanged quotas newQuotas then ⟨a, w.result⟩
    else ⟨a, .admitted⟩

lemma checkWaiter_checked (batch : Batch S) (w : Waiter S) :
    (checkWaiter c batch w).checked = batch.checked ++ [w.afterCheck c batch.quotas] := by
  unfold checkWaiter Waiter.afterCheck
  rcases checkRequest c batch.quotas w.attributes with ⟨a, err | new⟩
  · rfl
  dsimp only
  split
  · rfl
  · split <;> rfl

/-- A check whose request is charged. -/
def Waiter.Passes (c : Config S) (quotas : List ResourceQuota) (w : Waiter S)
    (new : List ResourceQuota) : Prop :=
  (checkRequest c quotas w.attributes).2 = .ok new ∧ w.attributes.isDryRun = false

variable (quotas)

lemma checkRequest_isDryRun (a : Attributes S) :
    (checkRequest c quotas a).1.isDryRun = a.isDryRun := by
  rcases checkRequest_attributes c quotas a with h | h
  · rw [h]
  · rw [h, (withNamespace_spec a).2.1]

lemma checkWaiter_quotas (batch : Batch S) (w : Waiter S) :
    (checkWaiter c batch w).quotas = batch.quotas ∧ (∀ new, ¬w.Passes c batch.quotas new) ∨
      w.Passes c batch.quotas (checkWaiter c batch w).quotas ∧
        (usageChanged batch.quotas (checkWaiter c batch w).quotas = true →
          (checkWaiter c batch w).atLeastOneChanged = true) := by
  have hdry := checkRequest_isDryRun (c := c) batch.quotas w.attributes
  unfold checkWaiter Waiter.Passes
  generalize hcheck : checkRequest c batch.quotas w.attributes = check at hdry
  rcases check with ⟨a, err | new⟩
  · exact .inl ⟨rfl, fun new h => nomatch h.1⟩
  dsimp only at hdry ⊢
  rw [hdry]
  split
  · rename_i hdry'
    exact .inl ⟨rfl, fun new h => by rw [hdry'] at h; cases h.2⟩
  rename_i hdry'
  rw [Bool.not_eq_true] at hdry'
  split_ifs with hchanged
  · exact .inr ⟨⟨rfl, hdry'⟩, fun _ => rfl⟩
  · exact .inr ⟨⟨rfl, hdry'⟩, fun h => absurd h hchanged⟩

lemma checkWaiter_changed {batch : Batch S} (w : Waiter S)
    (h : batch.atLeastOneChanged = true) : (checkWaiter c batch w).atLeastOneChanged = true := by
  fun_cases checkWaiter c batch w with
  | case3 => rfl
  | _ => exact h

/-- The loop over the first waiters. -/
def firstWaiters (c : Config S) (quotas : List ResourceQuota) (waiters : List (Waiter S)) (n : ℕ) :
    Batch S :=
  checkWaiters c quotas (waiters.take n)

variable {n : ℕ} {waiters : List (Waiter S)} {w : Waiter S}

lemma firstWaiters_succ (quotas : List ResourceQuota) (hw : waiters[n]? = some w) :
    firstWaiters c quotas waiters (n + 1) = checkWaiter c (firstWaiters c quotas waiters n) w := by
  unfold firstWaiters checkWaiters
  rw [take_add_one, hw, Option.toList_some, foldl_append]
  rfl

lemma firstWaiters_length (waiters : List (Waiter S)) :
    firstWaiters c quotas waiters waiters.length = checkWaiters c quotas waiters := by
  unfold firstWaiters
  rw [take_length]

variable {quotas}

lemma firstWaiters_checked (hn : n ≤ waiters.length) :
    (firstWaiters c quotas waiters n).checked.length = n ∧
      ∀ i w, i < n → waiters[i]? = some w → (firstWaiters c quotas waiters n).checked[i]? =
        some (w.afterCheck c (firstWaiters c quotas waiters i).quotas) := by
  induction n with
  | zero => exact ⟨rfl, fun i w hi => absurd hi (Nat.not_lt_zero i)⟩
  | succ n ih =>
    have hlast : waiters[n]? = some waiters[n] := getElem?_eq_getElem hn
    rcases ih (Nat.le_of_succ_le hn) with ⟨hlength, hget⟩
    rw [firstWaiters_succ quotas hlast, checkWaiter_checked]
    constructor
    · rw [length_append, hlength]
      rfl
    intro i w hi hw
    by_cases hin : i < n
    · rw [getElem?_append_left (by omega)]
      exact hget i w hin hw
    have heq : i = n := by omega
    subst heq
    rw [hlast] at hw
    cases hw
    rw [getElem?_append_right (by omega), hlength, Nat.sub_self]
    rfl

lemma firstWaiters_changed {m : ℕ} (hnm : n ≤ m) (hm : m ≤ waiters.length)
    (h : (firstWaiters c quotas waiters n).atLeastOneChanged = true) :
    (firstWaiters c quotas waiters m).atLeastOneChanged = true := by
  induction m, hnm using Nat.le_induction with
  | base => exact h
  | succ m _ ih =>
    rw [firstWaiters_succ quotas (getElem?_eq_getElem hm)]
    exact checkWaiter_changed _ (ih (Nat.le_of_succ_le hm))

/-- The usage delta of a waiter, by number. -/
def deltaAt (c : Config S) (waiters : List (Waiter S)) (i : ℕ) : ResourceList :=
  match waiters[i]? with
  | some w => delta c w.attributes
  | none => ∅

lemma deltaAt_eq (hw : waiters[i]? = some w) :
    deltaAt c waiters i = delta c w.attributes := by
  unfold deltaAt
  rw [hw]

/-- How a running quota differs from the original one: by the deltas of waiters that were charged,
and it is within its limits for each of these. -/
structure Account (c : Config S) (waiters : List (Waiter S)) (q q' : ResourceQuota)
    (charged : List ℕ) : Prop where
  same : q' = { q with used := q'.used }
  nodup : charged.Nodup
  used : ∀ k, count q'.used k = count q.used k +
    (charged.map fun i => count (mask (deltaAt c waiters i) q.hard.keys) k).sum
  within : ∀ i ∈ charged, ∀ k ∈ q.hard.keys, k ∈ (deltaAt c waiters i).keys →
    count q'.used k ≤ count q.hard k

variable {charged : List ℕ}

lemma Account.charge {q' q'' : ResourceQuota}
    (h : Account c waiters q q' charged) (hn : n ∉ charged)
    (hcharge : Charge (deltaAt c waiters n) q' q'') : Account c waiters q q'' (n :: charged) := by
  have hhard : q'.hard = q.hard := by
    rw [h.same]
  have hused : ∀ k, count q''.used k =
      count q'.used k + count (mask (deltaAt c waiters n) q.hard.keys) k := by
    intro k
    rw [hcharge.eq]
    rw [count_add, hhard]
  constructor
  · rw [hcharge.eq, h.same]
  · exact nodup_cons.2 ⟨hn, h.nodup⟩
  · intro k
    rw [hused, h.used, map_cons, sum_cons]
    ring
  intro i hi k hk hkey
  -- a resource that is not part of the new delta keeps its usage
  by_cases hnew : k ∈ (deltaAt c waiters n).keys
  · have hle := hcharge.within k (by rw [hhard]; exact hk) hnew
    rw [hhard] at hle
    exact hle
  have hzero : count (mask (deltaAt c waiters n) q.hard.keys) k = 0 := by
    apply count_eq_zero_of_notMem
    intro hmem
    exact hnew (mem_keys_mask.1 hmem).2
  rcases mem_cons.1 hi with rfl | hi
  · exact absurd hkey hnew
  · rw [hused, hzero, add_zero]
    exact h.within i hi k hk hkey

/-- The account of a quota after one more waiter: it is charged if it passes and the quota concerns
it. -/
lemma firstWaiters_account_succ (hscopes : c.ScopesMatch)
    (hw : waiters[n]? = some w) {j : ℕ} {q' : ResourceQuota}
    (hq' : (firstWaiters c quotas waiters n).quotas[j]? = some q')
    (h : Account c waiters q q' charged) (hfresh : n ∉ charged) :
    ∃ q'' charged', (firstWaiters c quotas waiters (n + 1)).quotas[j]? = some q'' ∧
      Account c waiters q q'' charged' ∧ (charged' = charged ∨ charged' = n :: charged) ∧
      ∀ new, w.Passes c (firstWaiters c quotas waiters n).quotas new →
        Concerns c w.attributes q' → n ∈ charged' := by
  have hcases := checkWaiter_quotas (c := c) (firstWaiters c quotas waiters n) w
  rw [← firstWaiters_succ quotas hw] at hcases
  rcases hcases with ⟨hsame, hfails⟩ | ⟨hpasses, -⟩
  · exact ⟨q', charged, by rw [hsame]; exact hq', h, .inl rfl,
      fun new hpass => absurd hpass (hfails new)⟩
  rcases (checkRequest_ok hscopes hpasses.1).2 j q' hq' with ⟨q'', hq'', hcase, hconcerned⟩
  rw [← deltaAt_eq hw] at hcase hconcerned
  by_cases hcharge : Charge (deltaAt c waiters n) q' q''
  · exact ⟨q'', n :: charged, hq'', h.charge hfresh hcharge, .inr rfl,
      fun _ _ _ => mem_cons_self⟩
  have heq : q'' = q' := hcase.resolve_right hcharge
  rw [heq] at hq'' hcharge hconcerned
  exact ⟨q', charged, hq'', h, .inl rfl,
    fun _ _ hconc => absurd (hconcerned hconc) hcharge⟩

/-- The accounts after the first waiters: those that pass and that a quota concerns are charged. -/
lemma firstWaiters_account (hscopes : c.ScopesMatch) (hn : n ≤ waiters.length) {j : ℕ}
    (hq : quotas[j]? = some q) :
    ∃ q' charged, (firstWaiters c quotas waiters n).quotas[j]? = some q' ∧
      Account c waiters q q' charged ∧ (∀ i ∈ charged, i < n) ∧
      ∀ i w new r, i < n → waiters[i]? = some w →
        w.Passes c (firstWaiters c quotas waiters i).quotas new →
        (firstWaiters c quotas waiters i).quotas[j]? = some r → Concerns c w.attributes r →
        i ∈ charged := by
  induction n with
  | zero =>
    refine ⟨q, [], hq, ⟨rfl, nodup_nil, ?_, ?_⟩, ?_, ?_⟩
    · intro k
      rw [map_nil, sum_nil, add_zero]
    · exact fun i hi => absurd hi not_mem_nil
    · exact fun i hi => absurd hi not_mem_nil
    · exact fun i w new r hi => absurd hi (Nat.not_lt_zero i)
  | succ n ih =>
    have hlast : waiters[n]? = some waiters[n] := getElem?_eq_getElem hn
    rcases ih (Nat.le_of_succ_le hn) with ⟨q', charged, hq', haccount, hlt, hall⟩
    rcases firstWaiters_account_succ hscopes hlast hq' haccount
      (fun h => absurd (hlt n h) (lt_irrefl n)) with ⟨q'', charged', hq'', haccount', hnew, hlast'⟩
    have hmem : ∀ i, i ∈ charged' ↔ i ∈ charged ∨ i = n ∧ n ∈ charged' := by
      rcases hnew with rfl | rfl
      · grind
      · grind
    refine ⟨q'', charged', hq'', haccount', ?_, ?_⟩
    · intro i hi
      rcases (hmem i).1 hi with hi | ⟨rfl, -⟩
      · exact Nat.lt_succ_of_lt (hlt i hi)
      · exact Nat.lt_succ_self i
    · intro i w new r hi hw hpass hr hconc
      rcases Nat.lt_succ_iff_lt_or_eq.1 hi with hi | rfl
      · exact (hmem i).2 (.inl (hall i w new r hi hw hpass hr hconc))
      · cases hlast.symm.trans hw
        cases hq'.symm.trans hr
        exact hlast' new hpass hconc

lemma firstWaiters_quotas_length (hscopes : c.ScopesMatch) (hn : n ≤ waiters.length) :
    (firstWaiters c quotas waiters n).quotas.length = quotas.length := by
  induction n with
  | zero => rfl
  | succ n ih =>
    have hcases := checkWaiter_quotas (c := c) (firstWaiters c quotas waiters n) waiters[n]
    rw [← firstWaiters_succ quotas (getElem?_eq_getElem hn)] at hcases
    rcases hcases with ⟨hsame, -⟩ | ⟨hpasses, -⟩
    · rw [hsame]
      exact ih (Nat.le_of_succ_le hn)
    · exact (checkRequest_ok hscopes hpasses.1).1.trans (ih (Nat.le_of_succ_le hn))

/-- A charge with a delta that a quota limits increases its usage. -/
lemma Account.count_lt {q' : ResourceQuota}
    (h : Account c waiters q q' charged) (hi : i ∈ charged) (hk : k ∈ q.hard.keys)
    (hkey : k ∈ (deltaAt c waiters i).keys) :
    count q.used k < count q'.used k := by
  have hpositive : ∀ i, Positive (deltaAt c waiters i) := by
    intro i
    unfold deltaAt
    split
    · exact positive_delta _
    · exact positive_empty
  have hnonneg : ∀ v ∈ charged.map fun i => count (mask (deltaAt c waiters i) q.hard.keys) k,
      0 ≤ v := by
    intro v hv
    rcases mem_map.1 hv with ⟨i, -, rfl⟩
    rw [count_mask, if_pos hk]
    exact (hpositive i).count_nonneg k
  have hle : count (mask (deltaAt c waiters i) q.hard.keys) k ≤
      (charged.map fun i => count (mask (deltaAt c waiters i) q.hard.keys) k).sum :=
    single_le_sum hnonneg _ (mem_map.2 ⟨i, hi, rfl⟩)
  rw [count_mask, if_pos hk] at hle
  have hpos := (hpositive i).count_pos hkey
  rw [h.used]
  omega

/-! ## Rounds -/

/-- The running quotas when a round checks a waiter. -/
def Round.running (c : Config S) (r : Round S) (i : ℕ) : List ResourceQuota :=
  (firstWaiters c r.quotas r.waiters i).quotas

/-- When a round checks a waiter, a quota of this name concerns it. -/
def Round.Concerns (c : Config S) (r : Round S) (i : ℕ) (name : Str) : Prop :=
  ∃ w ∈ r.waiters[i]?, ∃ q ∈ r.running c i, q.name = name ∧ Quota.Concerns c w.attributes q

instance (c : Config S) (r : Round S) (i : ℕ) (name : Str) : Decidable (r.Concerns c i name) :=
  inferInstanceAs (Decidable (∃ w ∈ r.waiters[i]?, _))

/-- A round finds a waiter that was rejected before, and none of its quotas is changed by it. -/
def Round.Overlooks (c : Config S) (r : Round S) (i : ℕ) : Prop :=
  ∃ w err new, r.waiters[i]? = some w ∧ w.result = .rejected err ∧
    (checkRequest c (r.running c i) w.attributes).2 = .ok new ∧
    usageChanged (r.running c i) new = false

/-- A successful update of a round that includes the usage delta of a waiter, besides those of
others, and that leaves the quota within its limits for it. -/
structure Round.Includes (c : Config S) (r : Round S) (i : ℕ) (usage : ResourceList) (u : Update) :
    Prop where
  mem : u ∈ r.updates
  succeeds : u.err = none
  same : u.written = { u.original with used := u.written.used }
  used : ∃ others : List ℕ, others.Nodup ∧ i ∉ others ∧ ∀ k, count u.written.used k =
    count u.original.used k + count (mask usage u.original.hard.keys) k +
      (others.map fun j => count (mask (deltaAt c r.waiters j) u.original.hard.keys) k).sum
  within : ∀ k ∈ u.original.hard.keys, k ∈ usage.keys →
    count u.written.used k ≤ count u.original.hard k

lemma mem_updateQuotas (accessor : QuotaAccessor S) (history : List (Round S))
    {l : List (ResourceQuota × ResourceQuota)} {updates : List Update} :
    (∀ u ∈ updates, u ∈ l.foldl (updateQuota accessor history) updates) ∧
      ∀ q q', (q, q') ∈ l → equals q.used q'.used = false →
        ∃ u ∈ l.foldl (updateQuota accessor history) updates, u.original = q ∧ u.written = q' := by
  induction l generalizing updates with
  | nil => exact ⟨fun u hu => hu, fun q q' h => absurd h not_mem_nil⟩
  | cons pair l ih =>
    rw [foldl_cons]
    rcases @ih (updateQuota accessor history updates pair) with ⟨hkeep, hmem⟩
    constructor
    · intro u hu
      apply hkeep
      unfold updateQuota
      split
      · exact hu
      · exact mem_append_left _ hu
    · intro q q' h hequals
      rcases mem_cons.1 h with rfl | h
      · refine ⟨⟨q, q', accessor.updateQuotaStatus history updates q'⟩, hkeep _ ?_, rfl, rfl⟩
        unfold updateQuota
        rw [if_neg (by rw [hequals]; exact Bool.false_ne_true)]
        exact mem_append_right _ mem_cons_self
      · exact hmem q q' h hequals

/-- A waiter that passes and that a quota concerns changes this quota, and the quota is part of the
updates with the waiter's delta. -/
lemma round_charges (hscopes : c.ScopesMatch) (hw : waiters[i]? = some w)
    (hpass : w.Passes c (firstWaiters c quotas waiters i).quotas new) {r : ResourceQuota}
    (hr : r ∈ (firstWaiters c quotas waiters i).quotas) (hconc : Concerns c w.attributes r) :
    usageChanged (firstWaiters c quotas waiters i).quotas new = true ∧
      (checkWaiters c quotas waiters).atLeastOneChanged = true ∧
      ∀ (accessor : QuotaAccessor S) history, ∃ u ∈ updateQuotas accessor history quotas
        (checkWaiters c quotas waiters).quotas, u.original.name = r.name ∧
          ∃ charged, i ∈ charged ∧ Account c waiters u.original u.written charged := by
  have hi : i < waiters.length := (List.getElem?_eq_some_iff.1 hw).1
  rcases getElem?_of_mem hr with ⟨j, hj⟩
  have hquota : ∃ q, quotas[j]? = some q := by
    have hlt := (List.getElem?_eq_some_iff.1 hj).1
    rw [firstWaiters_quotas_length hscopes hi.le] at hlt
    exact ⟨_, getElem?_eq_getElem hlt⟩
  rcases hquota with ⟨q, hq⟩
  rcases firstWaiters_account hscopes hi.le hq with ⟨r', _, hr', hbefore, -⟩
  rw [hj] at hr'
  cases hr'
  have hhard : r.hard = q.hard := by
    rw [hbefore.same]
  have hname : r.name = q.name := by
    rw [hbefore.same]
  rcases firstWaiters_account hscopes le_rfl hq with ⟨q', charged, hq', haccount, -, hall⟩
  have hcharged := hall i w new r hi hw hpass hj hconc
  rw [firstWaiters_length] at hq'
  have hdelta := deltaAt_eq (c := c) hw
  rcases hconc.choose_spec.2.2.2 with ⟨k, hk, hkey⟩
  have hchanged : usageChanged (firstWaiters c quotas waiters i).quotas new = true := by
    rcases (checkRequest_ok hscopes hpass.1).2 j r hj with ⟨r', hr', -, hcharge⟩
    have hused : count r'.used k = count r.used k + count (delta c w.attributes) k := by
      rw [(hcharge hconc).eq]
      rw [count_add, count_mask, if_pos hk]
    have hpos := (positive_delta (c := c) w.attributes).count_pos hkey
    unfold usageChanged
    rw [any_eq_true]
    refine ⟨(r, r'), mem_of_getElem? (i := j) ?_, ?_⟩
    · rw [getElem?_zip_eq_some]
      exact ⟨hj, hr'⟩
    rw [Bool.not_eq_true', ← Bool.not_eq_true]
    intro hequals
    have hsame : count r.used k = count r'.used k := count_of_equals hequals k
    omega
  refine ⟨hchanged, ?_, ?_⟩
  · rw [← firstWaiters_length]
    refine firstWaiters_changed hi le_rfl ?_
    rw [firstWaiters_succ quotas hw]
    rcases checkWaiter_quotas (c := c) (firstWaiters c quotas waiters i) w with
      ⟨-, hfails⟩ | ⟨hpasses, hflag⟩
    · exact absurd hpass (hfails new)
    apply hflag
    have heq := hpass.1.symm.trans hpasses.1
    cases heq
    exact hchanged
  · intro accessor history
    have hequals : equals q.used q'.used = false := by
      rw [← Bool.not_eq_true]
      intro hequals
      have hlt := haccount.count_lt hcharged (by rw [← hhard]; exact hk) (by rw [hdelta]; exact hkey)
      rw [count_of_equals hequals k] at hlt
      exact lt_irrefl _ hlt
    have hzip : (q, q') ∈ quotas.zip (checkWaiters c quotas waiters).quotas := by
      apply mem_of_getElem? (i := j)
      rw [getElem?_zip_eq_some]
      exact ⟨hq, hq'⟩
    rcases (mem_updateQuotas accessor history).2 q q' hzip hequals with ⟨u, hu, rfl, rfl⟩
    exact ⟨u, hu, hname.symm, charged, hcharged, haccount⟩

/-! ## Retries -/

/-- The updates of a round. -/
def Round.Updated (c : Config S) (accessor : QuotaAccessor S) (history : List (Round S))
    (r : Round S) : Prop :=
  r.updates = if (checkWaiters c r.quotas r.waiters).atLeastOneChanged then
    updateQuotas accessor history r.quotas (checkWaiters c r.quotas r.waiters).quotas else []

/-- How `checkQuotas` goes on with a round: it settles those that wait, or there is a retry for the
quotas whose updates failed. -/
inductive Runs (c : Config S) (accessor : QuotaAccessor S) :
    List (Round S) → Round S → Outcome S → Prop where
  | settle {history : List (Round S)} {r : Round S} {result : Result}
      (hupd : r.Updated c accessor history)
      (hall : result = .admitted → ∀ u ∈ r.updates, u.err = none) :
      Runs c accessor history r
        ⟨(checkWaiters c r.quotas r.waiters).checked.map (Waiter.settle result), history ++ [r]⟩
  | retry {history : List (Round S)} {r next : Round S} {out : Outcome S}
      (hupd : r.Updated c accessor history)
      (hfailed : ∀ u ∈ r.updates, u.err ≠ none → u.written.name ∈ next.names)
      (hwaiters : next.waiters = (checkWaiters c r.quotas r.waiters).checked)
      (h : Runs c accessor (history ++ [r]) next out) : Runs c accessor history r out

lemma settle_defaultDeny (w : Waiter S) : w.settle .defaultDeny = w := by
  rcases w with ⟨a, _ | _ | _ | _⟩ <;> rfl

section

variable {accessor : QuotaAccessor S} {retries : ℕ} {history : List (Round S)} {names : List Str}
  {r : Round S} {out : Outcome S}

variable (c accessor retries history names quotas waiters) in
lemma runs_checkQuotas : ∃ updates, Runs c accessor history ⟨names, quotas, waiters, updates⟩
    (checkQuotas c accessor retries history names quotas waiters) := by
  fun_induction checkQuotas c accessor retries history names quotas waiters with
  | case1 _ _ _ _ _ _ updates _ _ hnone =>
    refine ⟨updates, .settle rfl fun _ u hu => ?_⟩
    have hsome := filter_eq_nil_iff.1 hnone u hu
    rwa [Option.isSome_iff_ne_none, not_not] at hsome
  | case2 _ _ _ _ _ updates => exact ⟨updates, .settle rfl nofun⟩
  | case3 _ _ _ _ _ updates => exact ⟨updates, .settle rfl nofun⟩
  | case4 _ _ _ _ _ updates _ _ _ _ _ _ _ ih =>
    rcases ih with ⟨_, h⟩
    refine ⟨updates, .retry rfl (fun u hu herr => ?_) rfl h⟩
    apply mem_map_of_mem
    exact mem_filter.2 ⟨hu, Option.isSome_iff_ne_none.2 herr⟩
  | case5 _ _ _ _ _ batch updates =>
    rw [← map_id'' settle_defaultDeny batch.checked]
    exact ⟨updates, .settle rfl nofun⟩

lemma Runs.subset (h : Runs c accessor history r out) : history ++ [r] ⊆ out.rounds := by
  induction h with
  | settle _ _ => exact Subset.refl _
  | retry _ _ _ _ ih => exact Subset.trans (subset_append_left _ _) ih

lemma Runs.mem (h : Runs c accessor history r out) : r ∈ out.rounds :=
  h.subset (mem_append_right _ mem_cons_self)

lemma afterCheck_cases (quotas : List ResourceQuota) (hdry : w.attributes.isDryRun = false) :
    (∃ err, (w.afterCheck c quotas).result = .rejected err) ∨
      ∃ new, w.Passes c quotas new ∧
        (usageChanged quotas new = true ∧ (w.afterCheck c quotas).result = w.result ∨
          usageChanged quotas new = false ∧ (w.afterCheck c quotas).result = .admitted) := by
  have hdry' := (checkRequest_isDryRun (c := c) quotas w.attributes).trans hdry
  unfold Waiter.afterCheck Waiter.Passes
  generalize checkRequest c quotas w.attributes = check at hdry' ⊢
  rcases check with ⟨a, err | new⟩
  · exact .inl ⟨err, rfl⟩
  refine .inr ⟨new, ⟨rfl, hdry⟩, ?_⟩
  dsimp only at hdry' ⊢
  rw [hdry', if_neg Bool.false_ne_true]
  cases hchanged : usageChanged quotas new with
  | true => exact .inl ⟨rfl, rfl⟩
  | false => exact .inr ⟨rfl, rfl⟩

variable (quotas)

lemma afterCheck_attributes (w : Waiter S) :
    (w.afterCheck c quotas).attributes = (checkRequest c quotas w.attributes).1 := by
  unfold Waiter.afterCheck
  rcases checkRequest c quotas w.attributes with ⟨a, err | new⟩
  · rfl
  dsimp only
  split
  · rfl
  · split <;> rfl

lemma afterCheck_isDryRun (w : Waiter S) :
    (w.afterCheck c quotas).attributes.isDryRun = w.attributes.isDryRun := by
  rw [afterCheck_attributes, checkRequest_isDryRun]

lemma afterCheck_delta (w : Waiter S) :
    delta c (w.afterCheck c quotas).attributes = delta c w.attributes := by
  rw [afterCheck_attributes]
  rcases checkRequest_attributes c quotas w.attributes with h | h
  · rw [h]
  · rw [h, delta_withNamespace]

variable {quotas}

lemma checkWaiters_checked (quotas : List ResourceQuota) (hw : waiters[i]? = some w) :
    (checkWaiters c quotas waiters).checked[i]? =
      some (w.afterCheck c (firstWaiters c quotas waiters i).quotas) := by
  rw [← firstWaiters_length]
  exact (firstWaiters_checked le_rfl).2 i w (List.getElem?_eq_some_iff.1 hw).1 hw

lemma settle_of_rejected {err : CheckError} (h : w.result = .rejected err)
    (result : Result) : (w.settle result).result = .rejected err := by
  unfold Waiter.settle
  rw [h]
  exact h

lemma settle_of_defaultDeny (h : w.result = .defaultDeny) (result : Result) :
    (w.settle result).result = result := by
  unfold Waiter.settle
  rw [h]

lemma rejected_again (hover : ¬r.Overlooks c i) (hw : r.waiters[i]? = some w)
    (hdry : w.attributes.isDryRun = false) {err : CheckError}
    (hrej : w.result = .rejected err) :
    ∃ err, (w.afterCheck c (r.running c i)).result = .rejected err := by
  rcases afterCheck_cases (c := c) (r.running c i) hdry with
    h | ⟨new, hpass, ⟨-, h⟩ | ⟨hunchanged, -⟩⟩
  · exact h
  · exact ⟨err, h.trans hrej⟩
  · exact absurd ⟨w, err, new, hw, hrej, hpass.1, hunchanged⟩ hover

/-- A rejected request stays rejected if no round overlooks it. -/
lemma rejected_stays (h : Runs c accessor history r out) (hw : r.waiters[i]? = some w)
    (hdry : w.attributes.isDryRun = false) {err : CheckError} (hrej : w.result = .rejected err)
    (hover : ∀ r ∈ out.rounds, ¬r.Overlooks c i) {w' : Waiter S}
    (hw' : out.waiters[i]? = some w') : ∃ err, w'.result = .rejected err := by
  rcases rejected_again (hover r h.mem) hw hdry hrej with ⟨err', hafter⟩
  have hchk := checkWaiters_checked (c := c) r.quotas hw
  induction h generalizing w err err' with
  | settle =>
    rw [getElem?_map, hchk] at hw'
    cases hw'
    exact ⟨err', settle_of_rejected hafter _⟩
  | @retry _ r next _ _ _ hwaiters h ih =>
    rw [← hwaiters] at hchk
    have hdry' := (afterCheck_isDryRun (c := c) (r.running c i) w).trans hdry
    rcases rejected_again (hover next h.mem) hchk hdry' hafter with ⟨err'', hnext⟩
    exact ih hchk hdry' hafter hover hw' err'' hnext (checkWaiters_checked next.quotas hchk)

/-- An update with the account of a waiter includes its delta. -/
lemma includes_of_account {u : Update}
    (hw : r.waiters[i]? = some w) (hmem : u ∈ r.updates) (hsucc : u.err = none)
    (hi : i ∈ charged) (h : Account c r.waiters u.original u.written charged) :
    r.Includes c i (delta c w.attributes) u := by
  have hdelta := deltaAt_eq (c := c) hw
  refine ⟨hmem, hsucc, h.same, ⟨charged.erase i, h.nodup.erase i, ?_, ?_⟩, ?_⟩
  · exact h.nodup.not_mem_erase
  · intro k
    have hperm := ((perm_cons_erase hi).map fun j =>
      count (mask (deltaAt c r.waiters j) u.original.hard.keys) k).sum_eq
    rw [map_cons, sum_cons, hdelta] at hperm
    rw [h.used k, hperm, add_assoc]
  · intro k hk hkey
    exact h.within i hi k hk (by rw [hdelta]; exact hkey)

/-- A round rejects a waiting request, or keeps it waiting with an update for a quota that concerns
it. -/
lemma round_outcome (hscopes : c.ScopesMatch) (hupd : r.Updated c accessor history)
    (hw : r.waiters[i]? = some w) (hdry : w.attributes.isDryRun = false)
    (hresult : w.result = .defaultDeny) {name : Str} (hconc : r.Concerns c i name) :
    (∃ err, (w.afterCheck c (r.running c i)).result = .rejected err) ∨
      (w.afterCheck c (r.running c i)).result = .defaultDeny ∧
        ∃ u ∈ r.updates, u.original.name = name ∧ u.written.name = name ∧
          (u.err = none → r.Includes c i (delta c w.attributes) u) := by
  rcases hconc with ⟨w0, hw0, q, hq, rfl, hconcern⟩
  cases hw.symm.trans hw0
  rcases afterCheck_cases (c := c) (r.running c i) hdry with hrej | ⟨new, hpass, hcases⟩
  · exact .inl hrej
  rcases round_charges hscopes hw hpass hq hconcern with ⟨hchanged, hone, hincluded⟩
  rcases hincluded accessor history with ⟨u, hu, hn, charged, hi, haccount⟩
  right
  constructor
  · rcases hcases with ⟨-, h⟩ | ⟨h, -⟩
    · exact h.trans hresult
    · cases hchanged.symm.trans h
  have hmem : u ∈ r.updates := by
    rw [hupd, if_pos hone]
    exact hu
  refine ⟨u, hmem, hn, ?_, fun hsucc => includes_of_account hw hmem hsucc hi haccount⟩
  rw [haccount.same]
  exact hn

/-- A waiting request that is admitted in the end was charged to every quota that concerned it
whenever it was read, if no round overlooks that it was rejected. -/
lemma charged_of_admitted (hscopes : c.ScopesMatch) (h : Runs c accessor history r out)
    (hw : r.waiters[i]? = some w) (hdry : w.attributes.isDryRun = false)
    (hresult : w.result = .defaultDeny) {name : Str} (hname : name ∈ r.names)
    (hconc : ∀ r ∈ out.rounds, name ∈ r.names → r.Concerns c i name)
    (hover : ∀ r ∈ out.rounds, ¬r.Overlooks c i) {w' : Waiter S}
    (hw' : out.waiters[i]? = some w') (hadmitted : w'.result = .admitted) :
    ∃ r ∈ out.rounds, ∃ u, r.Includes c i (delta c w.attributes) u ∧ u.original.name = name := by
  induction h generalizing w with
  | @settle history r _ hupd hall =>
    have hmem := (Runs.settle hupd hall).mem
    rw [getElem?_map, checkWaiters_checked r.quotas hw] at hw'
    cases hw'
    rcases round_outcome hscopes hupd hw hdry hresult (hconc r hmem hname) with
      ⟨err, hrej⟩ | ⟨hdef, u, hu, hn, -, hincludes⟩
    · cases (settle_of_rejected hrej _).symm.trans hadmitted
    · have hsucc := hall ((settle_of_defaultDeny hdef _).symm.trans hadmitted) u hu
      exact ⟨r, hmem, u, hincludes hsucc, hn⟩
  | @retry history r next out hupd hfailed hwaiters h ih =>
    have hmem := (Runs.retry hupd hfailed hwaiters h).mem
    have hchk := checkWaiters_checked (c := c) r.quotas hw
    rw [← hwaiters] at hchk
    have hdry' := (afterCheck_isDryRun (c := c) (r.running c i) w).trans hdry
    rcases round_outcome hscopes hupd hw hdry hresult (hconc r hmem hname) with
      ⟨err, hrej⟩ | ⟨hdef, u, hu, hn, hn', hincludes⟩
    · rcases rejected_stays h hchk hdry' hrej hover hw' with ⟨err', herr'⟩
      cases herr'.symm.trans hadmitted
    by_cases hsucc : u.err = none
    · exact ⟨r, hmem, u, hincludes hsucc, hn⟩
    -- the update failed, so the retry is about the quota
    have hfailedName := hfailed u hu hsucc
    rw [hn'] at hfailedName
    have hnext := ih hchk hdry' hdef hfailedName hconc hover hw'
    rw [afterCheck_delta] at hnext
    exact hnext

end

/-- What is expected of a request with a nil result: if it is not a dry run, it was charged to every
quota of the first round that matches it and limits a resource of its usage delta, and that still
exists whenever it is read again. -/
def ChargedIfAdmitted (c : Config S) (quotas : List ResourceQuota) (requests : List (Attributes S))
    (out : Outcome S) (i : ℕ) : Prop :=
  ∀ a w, requests[i]? = some a → a.isDryRun = false → out.waiters[i]? = some w →
    w.result = .admitted → ∀ q ∈ quotas, Concerns c a q →
      (∀ r ∈ out.rounds, q.name ∈ r.names → q.name ∈ r.quotas.map (·.name)) →
      ∃ r ∈ out.rounds, ∃ u, r.Includes c i (delta c a) u ∧ u.original.name = q.name

/-- **Admitted requests are charged**, in every run in which no round overlooks that the request was
rejected before, and quotas that concern it still do when a round checks it. -/
theorem admitted_is_charged (hscopes : c.ScopesMatch) (accessor : QuotaAccessor S) (retries : ℕ)
    (quotas : List ResourceQuota) (requests : List (Attributes S)) (i : ℕ)
    (hover : ∀ r ∈ (checkQuotas c accessor retries [] (quotas.map (·.name)) quotas
      (requests.map newAdmissionWaiter)).rounds, ¬r.Overlooks c i)
    (hkept : ∀ r ∈ (checkQuotas c accessor retries [] (quotas.map (·.name)) quotas
      (requests.map newAdmissionWaiter)).rounds, ∀ a ∈ requests[i]?, ∀ q ∈ quotas,
        Concerns c a q → q.name ∈ r.quotas.map (·.name) → r.Concerns c i q.name) :
    ChargedIfAdmitted c quotas requests (checkQuotas c accessor retries [] (quotas.map (·.name))
      quotas (requests.map newAdmissionWaiter)) i := by
  intro a w ha hdry hw hadmitted q hq hconc hexists
  have hwaiter : (requests.map newAdmissionWaiter)[i]? = some (newAdmissionWaiter a) := by
    rw [getElem?_map, ha]
    rfl
  rcases runs_checkQuotas c quotas (requests.map newAdmissionWaiter) accessor retries []
    (quotas.map (·.name)) with ⟨updates, hruns⟩
  refine charged_of_admitted hscopes hruns hwaiter hdry rfl (mem_map_of_mem hq) ?_ hover hw hadmitted
  intro r hr hname
  exact hkept r hr a ha q hq hconc (hexists r hr hname)

/-! ## An overlooked rejection -/

def pods : ResourceName := ['p']

/-- An evaluator that counts pods; a pod names the quota that matches it. -/
def podEvaluator : Evaluator Str where
  handles := fun _ => true
  constraints := fun _ _ => .ok ()
  matchesQuota := fun quota object => .ok (decide (quota.name = object.spec))
  matchingScopes := fun _ _ => .ok []
  uncoveredQuotaScopes := fun _ _ => .ok []
  matchingResources := fun names => names
  usage := fun _ => .ok (AList.singleton pods 1)

def podConfig : Config Str := ⟨fun _ => some podEvaluator, []⟩

lemma podConfig_scopesMatch : podConfig.ScopesMatch := by
  intro resource evaluator h object scopes
  cases h
  exact ⟨[], rfl⟩

/-- A quota for pods, of which none is used. -/
def podQuota (name : Str) (hard : ℤ) : ResourceQuota where
  name := name
  nspace := ['n']
  scopes := []
  scopeSelector := none
  hard := AList.singleton pods hard
  used := AList.singleton pods 0

/-- The request to create a pod. -/
def createPod (quota : Str) : Attributes Str where
  resource := ⟨[], ['p', 'o', 'd', 's']⟩
  nspace := ['n']
  operation := .create
  object := ⟨some ⟨['n'], []⟩, quota⟩
  oldObject := none
  isDryRun := false

def fullQuota : ResourceQuota := podQuota ['a'] 0

def freeQuota : ResourceQuota := podQuota ['b'] 5

/-- The updates of the first round conflict; the quotas stay as they are. -/
def conflicting (quotas : List ResourceQuota) : QuotaAccessor Str where
  updateQuotaStatus := fun history _ _ => if history.length = 0 then some ['c'] else none
  getQuotas := fun _ _ => .ok quotas

/-- Requests to create pods, with such updates. -/
def conflictingRun (quotas : List ResourceQuota) (requests : List (Attributes Str)) : Outcome Str :=
  checkQuotas podConfig (conflicting quotas) 3 [] (quotas.map (·.name)) quotas
    (requests.map newAdmissionWaiter)

/-- The first round rejects the first pod, for the quota that is full. The update for the second pod
conflicts, and the retry, which is about its quota only, admits both. -/
theorem rejected_request_admitted :
    ¬ChargedIfAdmitted podConfig [fullQuota, freeQuota] [createPod ['a'], createPod ['b']]
      (conflictingRun [fullQuota, freeQuota] [createPod ['a'], createPod ['b']]) 0 := by
  set run := conflictingRun [fullQuota, freeQuota] [createPod ['a'], createPod ['b']]
  have hwaiter : run.waiters[0]? = some ⟨createPod ['a'], .admitted⟩ := by decide +kernel
  -- the quota is not read again, and only the other one is updated
  have hexists : ∀ r ∈ run.rounds, fullQuota.name ∈ r.names →
      fullQuota.name ∈ r.quotas.map (·.name) := by decide +kernel
  have hupd : ∀ r ∈ run.rounds, ∀ u ∈ r.updates, u.original.name = ['b'] := by decide +kernel
  intro h
  rcases h _ _ rfl rfl hwaiter rfl fullQuota mem_cons_self (by decide +kernel) hexists with
    ⟨r, hr, u, hu, hname⟩
  cases hname.symm.trans (hupd r hr u hu.mem)

/-- Two pods for a quota with room for one, whose update conflicts once: both rounds reject the
second pod, and the first is charged. -/
theorem admitted_is_charged_pod :
    let quotas := [podQuota ['b'] 1]
    let requests := [createPod ['b'], createPod ['b']]
    (conflictingRun quotas requests).waiters.map (decide <| ·.result = .admitted) = [true, false] ∧
      (conflictingRun quotas requests).rounds.length = 2 ∧
      ∀ i < 2, ChargedIfAdmitted podConfig quotas requests (conflictingRun quotas requests) i := by
  intro quotas requests
  refine ⟨by decide +kernel, by decide +kernel, fun i hi => ?_⟩
  have hrej : ∀ i < 2, ∀ r ∈ (conflictingRun quotas requests).rounds,
      ∀ w ∈ r.waiters[i]?, w.result = .defaultDeny ∨
        (checkRequest podConfig (r.running podConfig i) w.attributes).2.isOk = false := by
    decide +kernel
  have hkept : ∀ i < 2, ∀ r ∈ (conflictingRun quotas requests).rounds, ∀ q ∈ quotas,
      r.Concerns podConfig i q.name := by decide +kernel
  refine admitted_is_charged podConfig_scopesMatch (conflicting quotas) 3 quotas requests i ?_
    fun r hr _ _ q hq _ _ => hkept i hi r hr q hq
  rintro r hr ⟨w, err, new, hw, hresult, hpass, -⟩
  rcases hrej i hi r hr w hw with hdef | hfails
  · cases hresult.symm.trans hdef
  · rw [hpass] at hfails
    cases hfails

end Kubernetes.Apiserver.Quota
