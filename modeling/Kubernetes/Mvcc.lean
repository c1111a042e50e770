import Kubernetes.Core
import Mathlib.Data.List.Find

/-! # A multi-version key-value store

A store keeps all its writes, each with a revision of its own; revisions increase. It is read at a
revision: a key then has the value of the last write to it up to that revision, together with the
revision of that write.

Reads at a revision that the store has reached are not changed by later writes
(`getAt_write`), and the revision of a value determines it (`Write.eq_of_rev`). If keys are ordered,
the live keys with a property can be listed at a revision (`rangeAt`).
-/

namespace Kubernetes.Mvcc

open List Nat

variable {K V : Type}

/-- A write of a value, or the deletion of one. -/
structure Write (K V : Type) where
  rev : ℕ
  key : K
  value : Option V

/-- The writes of a store, the last one first, and its revision. -/
structure Store (K V : Type) where
  log : List (Write K V)
  rev : ℕ
  sorted : log.Pairwise fun w w' => w'.rev < w.rev
  bounds : ∀ w ∈ log, 0 < w.rev ∧ w.rev ≤ rev

namespace Store

def empty : Store K V := ⟨[], 1, List.Pairwise.nil, fun _ hw => absurd hw not_mem_nil⟩

def write (s : Store K V) (key : K) (value : Option V) : Store K V where
  log := ⟨s.rev + 1, key, value⟩ :: s.log
  rev := s.rev + 1
  sorted := pairwise_cons.2 ⟨fun w hw => lt_succ_of_le (s.bounds w hw).2, s.sorted⟩
  bounds := by
    intro w hw
    rcases mem_cons.1 hw with rfl | hw
    · exact ⟨succ_pos _, le_rfl⟩
    · exact ⟨(s.bounds w hw).1, le_succ_of_le (s.bounds w hw).2⟩

section

variable [DecidableEq K] (s : Store K V)

/-- The value of a key at a revision, with the revision of its write. -/
def getAt (rev : ℕ) (key : K) : Option (V × ℕ) :=
  (s.log.find? fun w => w.rev ≤ rev && w.key = key).bind fun w => w.value.map fun v => (v, w.rev)

def get (key : K) : Option (V × ℕ) := s.getAt s.rev key

def writes (ws : List (K × Option V)) : Store K V :=
  ws.foldl (fun s w => s.write w.1 w.2) s

variable [LinearOrder K]

/-- All keys that were ever written, in order. -/
def keys (s : Store K V) : List K := (s.log.map Write.key).dedup.insertionSort (· ≤ ·)

/-- The keys with a property that have a value at a revision, in order. -/
def rangeAt (s : Store K V) (rev : ℕ) (p : K → Prop) [DecidablePred p] : List (K × V × ℕ) :=
  s.keys.filterMap fun k => if p k then (s.getAt rev k).map fun v => (k, v) else none

end

end Store

variable {s : Store K V}

theorem Write.eq_of_rev {w w' : Write K V} (hw : w ∈ s.log) (hw' : w' ∈ s.log)
    (h : w.rev = w'.rev) : w = w' := by
  have hnodup : (s.log.map Write.rev).Nodup :=
    pairwise_map.2 (s.sorted.imp fun hlt => ne_of_gt hlt)
  exact inj_on_of_nodup_map hnodup hw hw' h

lemma Write.mem_of_mem {w : Write K V} (h : w ∈ s.log) (key : K) (value : Option V) :
    w ∈ (s.write key value).log := mem_cons_of_mem _ h

lemma rev_le_writes (ws : List (K × Option V)) : s.rev ≤ (s.writes ws).rev := by
  induction ws generalizing s with
  | nil => exact le_rfl
  | cons w ws ih => exact (le_succ s.rev).trans (ih (s := s.write w.1 w.2))

/-- A list in the order of its keys is determined by its elements. -/
lemma eq_of_sorted_of_mem_iff [LinearOrder K] {α : Type} {l l' : List (K × α)}
    (hl : l.Pairwise fun x y => x.1 < y.1) (hl' : l'.Pairwise fun x y => x.1 < y.1)
    (h : ∀ x, x ∈ l ↔ x ∈ l') : l = l' := by
  have hanti : Std.Antisymm fun x y : K × α => x.1 < y.1 :=
    ⟨fun _ _ hxy hyx => absurd hxy (lt_asymm hyx)⟩
  have hirrefl : Std.Irrefl fun x y : K × α => x.1 < y.1 := ⟨fun _ => lt_irrefl _⟩
  exact hl.eq_of_mem_iff hl' h

section

variable [DecidableEq K]

lemma mem_of_getAt {rev m : ℕ} {key : K} {v : V} (h : s.getAt rev key = some (v, m)) :
    ⟨m, key, some v⟩ ∈ s.log ∧ m ≤ rev := by
  unfold Store.getAt at h
  rcases Option.bind_eq_some_iff.1 h with ⟨w, hfind, hw⟩
  rcases Option.map_eq_some_iff.1 hw with ⟨v', hv', heq⟩
  cases heq
  have hmem := mem_of_find?_eq_some hfind
  have hsome := find?_some hfind
  rw [Bool.and_eq_true, decide_eq_true_eq, decide_eq_true_eq] at hsome
  rcases w with ⟨rev', key', value'⟩
  rcases hsome with ⟨hle, rfl⟩
  cases hv'
  exact ⟨hmem, hle⟩

variable {rev : ℕ}

/-- A revision that the store has reached is not changed by a write. -/
theorem getAt_write (h : rev ≤ s.rev) (key key' : K) (value : Option V) :
    (s.write key value).getAt rev key' = s.getAt rev key' := by
  unfold Store.getAt Store.write
  rw [find?_cons_of_neg]
  rw [Bool.and_eq_true, decide_eq_true_eq]
  rintro ⟨hle, -⟩
  exact absurd hle (not_le.2 (lt_succ_of_le h))

lemma get_write (s : Store K V) (key key' : K) (value : Option V) :
    (s.write key value).get key' =
      if key' = key then value.map fun v => (v, s.rev + 1) else s.get key' := by
  unfold Store.get Store.getAt Store.write
  split_ifs with hne
  · subst_vars
    rw [find?_cons_of_pos (by simp)]
    rfl
  rw [find?_cons_of_neg (by simp [Ne.symm hne])]
  congr 1
  apply find?_congr
  intro w hw
  have hle := (s.bounds w hw).2
  simp [hle, le_succ_of_le hle]

/-- The revision with which a key is read determines its value. -/
lemma get_of_mem {key : K} {v v' : V} {m : ℕ} (h : ⟨m, key, some v⟩ ∈ s.log)
    (hget : s.get key = some (v', m)) : v' = v := by
  have heq := Write.eq_of_rev (mem_of_getAt hget).1 h rfl
  cases heq
  rfl

lemma getAt_writes (h : rev ≤ s.rev) (ws : List (K × Option V)) (key : K) :
    (s.writes ws).getAt rev key = s.getAt rev key := by
  induction ws generalizing s with
  | nil => rfl
  | cons w ws ih =>
    have hle : rev ≤ (s.write w.1 w.2).rev := h.trans (le_succ s.rev)
    exact (ih hle).trans (getAt_write h w.1 key w.2)

variable [LinearOrder K]

lemma keys_sorted : s.keys.Pairwise (· < ·) := by
  have hle : s.keys.Pairwise (· ≤ ·) := pairwise_insertionSort _ _
  have hne : s.keys.Nodup := (perm_insertionSort _ _).nodup_iff.2 (nodup_dedup _)
  exact (hle.and hne).imp fun h => lt_of_le_of_ne h.1 h.2

lemma mem_keys {k : K} : k ∈ s.keys ↔ ∃ w ∈ s.log, w.key = k := by
  unfold Store.keys
  rw [mem_insertionSort, mem_dedup, mem_map]

lemma mem_rangeAt {p : K → Prop} [DecidablePred p] {kv : K × V × ℕ} :
    kv ∈ s.rangeAt rev p ↔ p kv.1 ∧ s.getAt rev kv.1 = some kv.2 := by
  rcases kv with ⟨k, v⟩
  unfold Store.rangeAt
  rw [mem_filterMap]
  constructor
  · rintro ⟨k', -, h⟩
    split_ifs at h with hp
    rcases Option.map_eq_some_iff.1 h with ⟨v', hget, heq⟩
    cases heq
    exact ⟨hp, hget⟩
  · rintro ⟨hp, hget⟩
    refine ⟨k, mem_keys.2 ⟨_, (mem_of_getAt hget).1, rfl⟩, ?_⟩
    rw [if_pos hp, hget]
    rfl

lemma rangeAt_sorted (rev : ℕ) (p : K → Prop) [DecidablePred p] :
    (s.rangeAt rev p).Pairwise fun kv kv' => kv.1 < kv'.1 := by
  unfold Store.rangeAt
  rw [pairwise_filterMap]
  refine keys_sorted.imp fun hlt kv hkv kv' hkv' => ?_
  have hfst : ∀ {k : K} {kv : K × V × ℕ},
      (if p k then (s.getAt rev k).map fun v => (k, v) else none) = some kv → kv.1 = k := by
    intro k kv h
    split_ifs at h
    rcases Option.map_eq_some_iff.1 h with ⟨v, -, rfl⟩
    rfl
  rw [hfst hkv, hfst hkv']
  exact hlt

/-- A range at a revision that the store has reached does not change. -/
lemma rangeAt_writes (h : rev ≤ s.rev) (ws : List (K × Option V)) (p : K → Prop)
    [DecidablePred p] : (s.writes ws).rangeAt rev p = s.rangeAt rev p := by
  apply eq_of_sorted_of_mem_iff (rangeAt_sorted _ _) (rangeAt_sorted _ _)
  intro kv
  rw [mem_rangeAt, mem_rangeAt, getAt_writes h]

end

end Kubernetes.Mvcc
