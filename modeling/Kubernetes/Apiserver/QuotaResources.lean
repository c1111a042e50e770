import Kubernetes.CountMap

/-! # Resource lists of quotas

A model of `staging/src/k8s.io/apiserver/pkg/quota/v1/resources.go`, as far as quota admission uses
it. A quantity is its exact value, in the smallest unit of quantities. The loops over maps are those
of the source; what they compute for a resource does not depend on the order.
-/

namespace Kubernetes.Apiserver.Quota

open CountMap GoMap AList

abbrev ResourceName := List Char

scoped instance : LawfulBEq ResourceName := inferInstanceAs (LawfulBEq (List Char))

abbrev ResourceList := GoMap ResourceName ℤ

/-! ## The functions -/

variable (a b : ResourceList)

def equals : Bool :=
  decide (a.keys.length = b.keys.length) &&
    a.entries.all fun e => decide (b.lookup e.1 = some e.2)

/-- `LessThanOrEqual`: the resources of the first list that exceed the second one. -/
def exceeded : List ResourceName :=
  b.keys.filter fun key =>
    match a.lookup key, b.lookup key with
    | some other, some value => decide (value < other)
    | _, _ => false

def add : ResourceList :=
  let result := a.entries.foldl (fun result e =>
    result.insert e.1 (match b.lookup e.1 with
      | some other => e.2 + other
      | none => e.2)) ∅
  b.entries.foldl (fun result e =>
    match result.lookup e.1 with
    | some _ => result
    | none => result.insert e.1 e.2) result

def subtractWithNonNegativeResult : ResourceList :=
  let result := a.entries.foldl (fun result e =>
    let quantity := match b.lookup e.1 with
      | some other => e.2 - other
      | none => e.2
    result.insert e.1 (if 0 < quantity then quantity else 0)) ∅
  b.entries.foldl (fun result e =>
    match result.lookup e.1 with
    | some _ => result
    | none => result.insert e.1 0) result

def mask (resources : ResourceList) (names : List ResourceName) : ResourceList :=
  resources.entries.foldl (fun result e =>
    if e.1 ∈ names then result.insert e.1 e.2 else result) ∅

def removeZeros (a : ResourceList) : ResourceList :=
  a.entries.foldl (fun result e => if e.2 ≠ 0 then result.insert e.1 e.2 else result) ∅

def isNegative (a : ResourceList) : List ResourceName :=
  (a.entries.filter fun e => decide (e.2 < 0)).map (·.1)

/-! ## What they compute -/

variable {a b : ResourceList} {k : ResourceName}

/-- A loop that inserts some of the entries of a map into an empty one. -/
lemma lookup_foldl_insert (f : ResourceName → ℤ → Option ℤ) (a : ResourceList)
    (k : ResourceName) :
    (a.entries.foldl (fun (result : ResourceList) e =>
      match f e.1 e.2 with
      | some v => result.insert e.1 v
      | none => result) ∅).lookup k = (a.lookup k).bind (f k) := by
  rw [foldl_view (fun (result : ResourceList) key value =>
      match f key value with
      | some v => result.insert key v
      | none => result) (fun result key => result.lookup key)
    (fun key value old => match f key value with
      | some v => some v
      | none => old) ?_ ?_ a]
  · rw [lookup_empty]
    cases a.lookup k with
    | none => rfl
    | some v =>
      dsimp only [Option.elim_some, Option.bind_some]
      cases f k v <;> rfl
  · intro s key value
    cases f key value with
    | none => rfl
    | some v => exact lookup_insert _
  · intro s key value k' hne
    cases f key value with
    | none => rfl
    | some v => exact lookup_insert_ne hne

/-- A loop that adds the entries of a map that are missing. -/
lemma lookup_foldl_missing (f : ResourceName → ℤ → ℤ) (b result : ResourceList)
    (k : ResourceName) :
    (b.entries.foldl (fun (result : ResourceList) e =>
      match result.lookup e.1 with
      | some _ => result
      | none => result.insert e.1 (f e.1 e.2)) result).lookup k =
        ((result.lookup k) <|> (b.lookup k).map (f k)) := by
  rw [foldl_view (fun (result : ResourceList) key value =>
      match result.lookup key with
      | some _ => result
      | none => result.insert key (f key value)) (fun result key => result.lookup key)
    (fun key value old => old <|> some (f key value)) ?_ ?_ b]
  · cases b.lookup k with
    | none => cases result.lookup k <;> rfl
    | some v => rfl
  · intro s key value
    cases hlookup : s.lookup key with
    | none => exact lookup_insert _
    | some v => exact hlookup
  · intro s key value k' hne
    cases s.lookup key with
    | none => exact lookup_insert_ne hne
    | some v => rfl

lemma lookup_mask (a : ResourceList) (names : List ResourceName) (k : ResourceName) :
    (mask a names).lookup k = if k ∈ names then a.lookup k else none := by
  have h := lookup_foldl_insert (fun key value => if key ∈ names then some value else none) a k
  have hmask : mask a names = a.entries.foldl (fun (result : ResourceList) e =>
      match if e.1 ∈ names then some e.2 else none with
      | some v => result.insert e.1 v
      | none => result) ∅ := by
    unfold mask
    congr 1
    funext result e
    split <;> rfl
  rw [hmask, h]
  cases a.lookup k with
  | none => exact (ite_self none).symm
  | some v => rfl

lemma lookup_removeZeros (a : ResourceList) (k : ResourceName) :
    (removeZeros a).lookup k = (a.lookup k).filter (· ≠ 0) := by
  have h := lookup_foldl_insert (fun _ value => if value ≠ 0 then some value else none) a k
  have hremove : removeZeros a = a.entries.foldl (fun (result : ResourceList) e =>
      match if e.2 ≠ (0 : ℤ) then some e.2 else none with
      | some v => result.insert e.1 v
      | none => result) ∅ := by
    unfold removeZeros
    congr 1
    funext result e
    split <;> rfl
  rw [hremove, h]
  cases a.lookup k with
  | none => rfl
  | some v =>
    rw [Option.bind_some, Option.filter_some]
    simp only [decide_eq_true_eq]

lemma lookup_subtract (a b : ResourceList) (k : ResourceName) (v : ℤ)
    (h : (subtractWithNonNegativeResult a b).lookup k = some v) : 0 ≤ v := by
  have hfirst := lookup_foldl_insert (fun key value =>
    some (if (0 : ℤ) < (match b.lookup key with
      | some other => value - other
      | none => value) then (match b.lookup key with
      | some other => value - other
      | none => value) else 0)) a k
  have hmissing := lookup_foldl_missing (fun _ _ => 0) b
  unfold subtractWithNonNegativeResult at h
  rw [hmissing, hfirst] at h
  cases ha : a.lookup k with
  | none =>
    rw [ha] at h
    cases hb : b.lookup k with
    | none =>
      rw [hb] at h
      cases h
    | some w =>
      rw [hb] at h
      cases h
      exact le_rfl
  | some w =>
    rw [ha] at h
    cases h
    split_ifs with hpos
    · exact hpos.le
    · exact le_rfl

/-- `Add` adds, where a resource that a list does not have counts as nothing. -/
lemma count_add (a b : ResourceList) (k : ResourceName) :
    count (add a b) k = count a k + count b k := by
  have hfirst := lookup_foldl_insert (fun key value => some (match b.lookup key with
    | some other => value + other
    | none => value)) a k
  have hmissing := lookup_foldl_missing (fun _ value => value) b
  unfold count add
  rw [hmissing, hfirst]
  cases a.lookup k with
  | none =>
    cases b.lookup k with
    | none => rfl
    | some w => exact (zero_add w).symm
  | some v =>
    cases hb : b.lookup k with
    | none => exact (add_zero v).symm
    | some w => rfl

lemma count_mask (a : ResourceList) (names : List ResourceName) (k : ResourceName) :
    count (mask a names) k = if k ∈ names then count a k else 0 := by
  unfold count
  rw [lookup_mask]
  split <;> rfl

lemma count_of_equals (h : equals a b = true) (k : ResourceName) : count a k = count b k := by
  unfold equals at h
  rw [Bool.and_eq_true, decide_eq_true_eq, List.all_eq_true] at h
  rcases h with ⟨hlength, hall⟩
  have hsome : ∀ k v, a.lookup k = some v → b.lookup k = some v := by
    intro k v hk
    have hmem : (⟨k, v⟩ : Sigma fun _ : ResourceName => ℤ) ∈ a.entries := mem_lookup_iff.1 hk
    exact of_decide_eq_true (hall _ hmem)
  unfold count
  cases ha : a.lookup k with
  | some v => rw [hsome k v ha]
  | none =>
    cases hb : b.lookup k with
    | none => rfl
    | some w =>
      -- the keys of the first map are among those of the second, and as many
      exfalso
      have hsub : a.keys ⊆ b.keys := by
        intro key hkey
        rcases mem_iff_lookup.1 (AList.mem_keys.2 hkey) with ⟨v, hv⟩
        exact AList.mem_keys.1 (mem_iff_lookup.2 ⟨v, hsome key v hv⟩)
      have hperm := (List.subperm_of_subset a.keys_nodup hsub).perm_of_length_le hlength.symm.le
      have hmem : k ∈ a.keys :=
        hperm.symm.subset (AList.mem_keys.1 (mem_iff_lookup.2 ⟨w, hb⟩))
      rcases mem_iff_lookup.1 (AList.mem_keys.2 hmem) with ⟨v, hv⟩
      rw [ha] at hv
      cases hv

lemma le_of_exceeded_nil (h : exceeded a b = []) {v w : ℤ} (ha : a.lookup k = some v)
    (hb : b.lookup k = some w) : v ≤ w := by
  by_contra hlt
  have hmem : k ∈ exceeded a b := by
    unfold exceeded
    rw [List.mem_filter, ha, hb]
    refine ⟨AList.mem_keys.1 (mem_iff_lookup.2 ⟨w, hb⟩), ?_⟩
    exact decide_eq_true (not_le.1 hlt)
  rw [h] at hmem
  exact absurd hmem List.not_mem_nil

lemma nonneg_of_isNegative_nil (h : isNegative a = []) {v : ℤ} (ha : a.lookup k = some v) :
    0 ≤ v := by
  by_contra hlt
  have hmem : k ∈ isNegative a := by
    unfold isNegative
    rw [List.mem_map]
    refine ⟨⟨k, v⟩, List.mem_filter.2 ⟨mem_lookup_iff.1 ha, ?_⟩, rfl⟩
    exact decide_eq_true (not_le.1 hlt)
  rw [h] at hmem
  exact absurd hmem List.not_mem_nil

/-- Nothing that is not negative remains positive without its zeros. -/
lemma positive_removeZeros (h : ∀ k v, a.lookup k = some v → 0 ≤ v) :
    Positive (removeZeros a) := by
  intro k v hk
  rw [lookup_removeZeros, Option.filter_eq_some_iff, decide_eq_true_eq] at hk
  exact lt_of_le_of_ne (h k v hk.1) hk.2.symm

end Kubernetes.Apiserver.Quota
