import Kubernetes.GoMap

/-! # Maps of counts

A map from keys to integers in which a missing key counts as zero. There are two
ways to add to a count: `add` keeps an entry that falls to zero, `update` deletes
it. Two maps may therefore have the same counts and different entries; those
without zero entries (`Normal`) are determined by their counts (`lookup_eq`).

Counts are additive: `count_updateAll` and `count_foldl_merge` read a loop of
updates and a merge of many maps as sums, whatever the order.
-/

namespace Kubernetes.CountMap

open GoMap List

variable {K : Type} [DecidableEq K] (m : GoMap K Int)

/-- `m[k]`, zero when missing. -/
def count (k : K) : Int := (m.lookup k).getD 0

/-- `m[k] += v` -/
def add (k : K) (v : Int) : GoMap K Int := m.insert k (count m k + v)

/-- `m[k] += v`, and no entry when that is zero. -/
def update (k : K) (v : Int) : GoMap K Int :=
  let m := add m k v
  if count m k = 0 then m.erase k else m

/-- Update every key of a list by `v`. -/
def updateAll (v : Int) (m : GoMap K Int) (keys : List K) : GoMap K Int :=
  keys.foldl (fun m k => update m k v) m

variable (iter : IterOrder K)

/-- Add every count of `toAppend`, in the order of a range over it. -/
def merge (m toAppend : GoMap K Int) : GoMap K Int :=
  (iter.order toAppend.keys).foldl (fun m k => add m k (count toAppend k)) m

/-- No entry is zero. -/
def Normal : Prop := ∀ k, m.lookup k ≠ some 0

/-- Every entry is positive. -/
def Positive : Prop := ∀ k v, m.lookup k = some v → 0 < v

section

variable {m n : GoMap K Int} {k : K} {v : Int}

@[simp]
lemma count_empty (k : K) : count (∅ : GoMap K Int) k = 0 := by
  unfold count
  rw [AList.lookup_empty]
  rfl

@[simp]
lemma count_add (m : GoMap K Int) (k : K) (v : Int) (k' : K) :
    count (add m k v) k' = count m k' + if k' = k then v else 0 := by
  unfold add
  rw [count, lookup_insert_if]
  by_cases h : k' = k
  · rw [if_pos h, if_pos h, h]
    rfl
  · rw [if_neg h, if_neg h, add_zero]
    rfl

lemma lookup_update (m : GoMap K Int) (k : K) (v : Int) (k' : K) :
    (update m k v).lookup k' =
      if k' = k then (if count m k + v = 0 then none else some (count m k + v))
      else m.lookup k' := by
  have hcount : count (add m k v) k = count m k + v := by rw [count_add, if_pos rfl]
  have hupdate : update m k v =
      if count m k + v = 0 then (add m k v).erase k else add m k v := by
    rw [← hcount]
    rfl
  rw [hupdate]
  by_cases hzero : count m k + v = 0
  · rw [if_pos hzero, lookup_erase_if, add, lookup_insert_if]
    by_cases h : k' = k
    · simp [h, hzero]
    · simp [h]
  · rw [if_neg hzero, add, lookup_insert_if, if_neg hzero]

@[simp]
lemma count_update (m : GoMap K Int) (k : K) (v : Int) (k' : K) :
    count (update m k v) k' = count m k' + if k' = k then v else 0 := by
  unfold count
  rw [lookup_update]
  by_cases h : k' = k
  · subst h
    rw [if_pos rfl, if_pos rfl]
    split_ifs with hzero
    · exact hzero.symm
    · rfl
  · rw [if_neg h, if_neg h, add_zero]

/-! ### Maps without zero entries -/

lemma normal_empty : Normal (∅ : GoMap K Int) := by
  intro k
  rw [AList.lookup_empty]
  exact nofun

lemma positive_empty : Positive (∅ : GoMap K Int) := by
  intro k v h
  rw [AList.lookup_empty] at h
  cases h

lemma Positive.normal (h : Positive m) : Normal m := fun k hk => lt_irrefl _ (h k 0 hk)

lemma Positive.count_nonneg (h : Positive m) (k : K) : 0 ≤ count m k := by
  unfold count
  cases hk : m.lookup k with
  | none => exact le_rfl
  | some v => exact (h k v hk).le

theorem Normal.update (h : Normal m) (k : K) (v : Int) : Normal (update m k v) := by
  intro k'
  rw [lookup_update]
  by_cases hk : k' = k
  · rw [if_pos hk]
    split_ifs with hzero
    · exact nofun
    · intro hsome
      exact hzero (Option.some.inj hsome)
  · rw [if_neg hk]
    exact h k'

theorem Positive.add (h : Positive m) (k : K) (hv : 0 < v) : Positive (add m k v) := by
  intro k' w hw
  have hnonneg := h.count_nonneg k
  rw [CountMap.add, lookup_insert_if] at hw
  split_ifs at hw with hk
  · cases hw
    omega
  · exact h k' w hw

theorem Positive.update (h : Positive m) (k : K) (hv : 0 < v) : Positive (update m k v) := by
  have hnonneg := h.count_nonneg k
  have hzero : count (CountMap.add m k v) k ≠ 0 := by
    rw [count_add, if_pos rfl]
    omega
  rw [CountMap.update, if_neg hzero]
  exact h.add k hv

/-- Without zero entries the counts say which entries there are. -/
lemma Normal.lookup_eq_iff (h : Normal m) :
    m.lookup k = some v ↔ count m k = v ∧ v ≠ 0 := by
  have hk := h k
  unfold count
  cases hlookup : m.lookup k with
  | none =>
    constructor
    · exact nofun
    · rintro ⟨hv, hne⟩
      exact absurd hv.symm hne
  | some w =>
    rw [hlookup] at hk
    constructor
    · intro hw
      cases hw
      exact ⟨rfl, fun hzero => hk (congrArg some hzero)⟩
    · rintro ⟨hv, -⟩
      exact congrArg some hv

theorem lookup_eq (hm : Normal m) (hn : Normal n) (h : ∀ k, count m k = count n k) (k : K) :
    m.lookup k = n.lookup k := by
  refine Option.ext fun v => ?_
  rw [hm.lookup_eq_iff, hn.lookup_eq_iff, h]

/-- `len(m) == 0` -/
lemma isEmpty_iff_lookup : m.keys.isEmpty = true ↔ ∀ k, m.lookup k = none := by
  rw [List.isEmpty_iff, eq_nil_iff_forall_not_mem]
  exact forall_congr' fun k => AList.lookup_eq_none.symm

lemma count_eq_zero_of_isEmpty (h : m.keys.isEmpty = true) (k : K) : count m k = 0 := by
  unfold count
  rw [isEmpty_iff_lookup.1 h]
  rfl

lemma isEmpty_congr (h : ∀ k, m.lookup k = n.lookup k) : m.keys.isEmpty = n.keys.isEmpty := by
  rw [Bool.eq_iff_iff, isEmpty_iff_lookup, isEmpty_iff_lookup]
  exact forall_congr' fun k => by rw [h]

end

/-! ### Loops -/

section

@[simp]
theorem count_updateAll (v : Int) (m : GoMap K Int) (keys : List K) (k : K) :
    count (updateAll v m keys) k = count m k + v * keys.count k := by
  unfold updateAll
  induction keys generalizing m with
  | nil => simp
  | cons key keys ih =>
    rw [foldl_cons, ih, count_update, count_cons]
    by_cases h : k = key
    · subst h
      simp only [if_true, beq_self_eq_true]
      push_cast
      ring
    · rw [if_neg h, if_neg (by simpa using Ne.symm h)]
      simp

variable {m : GoMap K Int}

lemma Normal.updateAll (h : Normal m) (v : Int) (keys : List K) :
    Normal (updateAll v m keys) := by
  unfold CountMap.updateAll
  induction keys generalizing m with
  | nil => exact h
  | cons key keys ih => exact ih (h.update key v)

lemma Positive.updateAll (h : Positive m) {v : Int} (hv : 0 < v) (keys : List K) :
    Positive (updateAll v m keys) := by
  unfold CountMap.updateAll
  induction keys generalizing m with
  | nil => exact h
  | cons key keys ih => exact ih (h.update key hv)

lemma count_foldl_add (f : K → Int) {keys : List K} (hnodup : keys.Nodup) (m : GoMap K Int)
    (k : K) :
    count (keys.foldl (fun m k => add m k (f k)) m) k =
      count m k + if k ∈ keys then f k else 0 := by
  induction keys generalizing m with
  | nil => simp
  | cons key keys ih =>
    obtain ⟨hnotin, hnodup⟩ := nodup_cons.1 hnodup
    rw [foldl_cons, ih hnodup, count_add]
    by_cases h : k = key
    · subst h
      simp [hnotin]
    · simp [h]

lemma count_eq_zero_of_notMem {k : K} (h : k ∉ m.keys) : count m k = 0 := by
  unfold count
  rw [AList.lookup_eq_none.2 (mt AList.mem_keys.1 h)]
  rfl

@[simp]
lemma count_merge (m toAppend : GoMap K Int) (k : K) :
    count (merge iter m toAppend) k = count m k + count toAppend k := by
  have hperm := iter.perm toAppend.keys
  unfold merge
  rw [count_foldl_add _ (hperm.nodup_iff.2 toAppend.keys_nodup)]
  by_cases h : k ∈ toAppend.keys
  · rw [if_pos (hperm.mem_iff.2 h)]
  · rw [if_neg (mt hperm.mem_iff.1 h), count_eq_zero_of_notMem h]

lemma Positive.count_pos (h : Positive m) {k : K} (hk : k ∈ m.keys) :
    0 < count m k := by
  obtain ⟨v, hv⟩ := mem_iff_lookup.1 (AList.mem_keys.1 hk)
  unfold count
  rw [hv]
  exact h k v hv

lemma Positive.merge {toAppend : GoMap K Int} (hm : Positive m) (happend : Positive toAppend)
    (iter : IterOrder K) : Positive (merge iter m toAppend) := by
  have hkeys : ∀ k ∈ iter.order toAppend.keys, 0 < count toAppend k := fun k hk =>
    happend.count_pos ((iter.perm _).mem_iff.1 hk)
  unfold CountMap.merge
  generalize iter.order toAppend.keys = keys at hkeys
  induction keys generalizing m with
  | nil => exact hm
  | cons key keys ih =>
    exact ih (hm.add key (hkeys key mem_cons_self))
      (forall_mem_cons.1 hkeys).2

theorem count_foldl_merge (maps : List (GoMap K Int)) (m : GoMap K Int) (k : K) :
    count (maps.foldl (merge iter) m) k = count m k + (maps.map (count · k)).sum := by
  induction maps generalizing m with
  | nil => simp
  | cons toAppend maps ih =>
    rw [foldl_cons, ih, count_merge, map_cons, sum_cons, add_assoc]

lemma Positive.foldl_merge (hm : Positive m) {maps : List (GoMap K Int)}
    (hmaps : ∀ toAppend ∈ maps, Positive toAppend) (iter : IterOrder K) :
    Positive (maps.foldl (CountMap.merge iter) m) := by
  induction maps generalizing m with
  | nil => exact hm
  | cons toAppend maps ih =>
    exact ih (hm.merge (hmaps toAppend mem_cons_self) iter)
      (forall_mem_cons.1 hmaps).2

end

end Kubernetes.CountMap
