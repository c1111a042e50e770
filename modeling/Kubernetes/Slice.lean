import Kubernetes.GoMap

/-! # Slices of a shared array

A slice is the beginning of a backing array. Deleting an element by moving the last
one to its place, and appending within the capacity, write to that array; a loop that
ranges over an older slice of it sees these writes.

`Ranged` is the invariant of such a loop, for a loop that deletes some of the elements
it visits: the slots that were not visited yet are as they were, and the slice holds
the elements that were kept and those that were not visited yet.
-/

namespace Kubernetes

open List

structure Slice (α : Type) where
  backing : List α
  len : Nat
  le : len ≤ backing.length

namespace Slice

variable {α : Type} (s : Slice α)

def toList : List α := s.backing.take s.len

/-- `append(s, a)`: in place if the capacity allows it. -/
def append (a : α) : Slice α :=
  if h : s.len < s.backing.length then
    ⟨s.backing.set s.len a, s.len + 1, by rw [length_set]; exact h⟩
  else ⟨s.backing ++ [a], s.len + 1, by rw [length_append]; exact Nat.add_le_add_right s.le 1⟩

/-- `s[i] = s[len(s)-1]; s = s[:len(s)-1]` for the first element with `p`; nothing if there is
none. -/
def removeFirst (p : α → Bool) (s : Slice α) : Option (Slice α) := do
  let i ← s.toList.findIdx? p
  let last ← s.backing[s.len - 1]?
  return ⟨s.backing.set i last, s.len - 1, by
    rw [length_set]; exact (Nat.sub_le _ _).trans s.le⟩

lemma length_toList : s.toList.length = s.len :=
  length_take_of_le s.le

lemma toList_getElem? {i : Nat} (h : i < s.len) : s.toList[i]? = s.backing[i]? := by
  unfold toList
  rw [getElem?_take, if_pos h]

lemma toList_append (a : α) : (s.append a).toList = s.toList ++ [a] := by
  unfold append toList
  by_cases h : s.len < s.backing.length
  · rw [dif_pos h]
    show (s.backing.set s.len a).take (s.len + 1) = _
    rw [take_succ_eq_append_getElem (by rwa [length_set]), getElem_set_self, take_set_of_le le_rfl]
  · have hlen : s.len = s.backing.length := le_antisymm s.le (not_lt.1 h)
    rw [dif_neg h]
    show (s.backing ++ [a]).take (s.len + 1) = _
    rw [hlen, take_length, take_of_length_le]
    rw [length_append, length_singleton]

lemma perm_set_last {l : List α} {i : Nat} (hi : i < l.length) (last : α)
    (hlast : l[l.length - 1]? = some last) :
    l.Perm (l[i] :: (l.set i last).take (l.length - 1)) := by
  induction l using reverseRecOn with
  | nil => exact absurd hi (Nat.not_lt_zero _)
  | append_singleton init x _ =>
    have hi' : i < init.length + 1 := by rwa [length_append, length_singleton] at hi
    simp only [length_append, length_singleton, Nat.add_sub_cancel] at hlast ⊢
    rw [getElem?_concat_length] at hlast
    cases hlast
    rcases Nat.lt_succ_iff_lt_or_eq.1 hi' with hlt | rfl
    · rw [getElem_append_left hlt, set_append_left _ _ hlt, take_left' (length_set ..)]
      refine (perm_append_singleton last init).trans ?_
      refine ((getElem_cons_eraseIdx_perm hlt).symm.cons last).trans ?_
      refine (List.Perm.swap _ _ _).trans ?_
      exact (set_perm_cons_eraseIdx hlt last).symm.cons _
    · -- the last element itself
      rw [getElem_concat_length rfl, set_append_right _ _ le_rfl, take_left' rfl]
      exact perm_append_singleton last init

/-- What `removeFirst` does: one element with `p` is gone, and only a slot up to its place was
written. -/
lemma removeFirst_spec {p : α → Bool} {s s' : Slice α} (h : s.removeFirst p = some s') :
    ∃ i a, s.toList.findIdx? p = some i ∧ p a = true ∧ s.toList.Perm (a :: s'.toList) ∧
      ∀ k, i < k → s'.backing[k]? = s.backing[k]? := by
  obtain ⟨i, hi, h⟩ := Option.bind_eq_some_iff.1 h
  obtain ⟨last, hlast, h⟩ := Option.bind_eq_some_iff.1 h
  cases h
  obtain ⟨hlt, hp, -⟩ := findIdx?_eq_some_iff_getElem.1 hi
  have hlen := s.length_toList
  have hlast' : s.toList[s.toList.length - 1]? = some last := by
    rw [hlen, toList_getElem? s (by omega), hlast]
  refine ⟨i, s.toList[i], hi, hp, ?_, ?_⟩
  · have htake : (s.backing.set i last).take (s.len - 1) =
        (s.toList.set i last).take (s.toList.length - 1) := by
      rw [hlen, toList, ← take_set, take_take, min_eq_left (Nat.sub_le _ _)]
    show s.toList.Perm (s.toList[i] :: (s.backing.set i last).take (s.len - 1))
    rw [htake]
    exact perm_set_last hlt last hlast'
  · intro k hk
    exact getElem?_set_ne (Nat.ne_of_lt hk)

lemma exists_removeFirst {p : α → Bool} {s : Slice α} {a : α} (ha : a ∈ s.toList)
    (hp : p a = true) : ∃ s', s.removeFirst p = some s' := by
  obtain ⟨i, hi⟩ := Option.isSome_iff_exists.1 (findIdx?_isSome.trans
    (any_eq_true.2 ⟨a, ha, hp⟩))
  have hpos := length_pos_of_mem ha
  rw [length_toList] at hpos
  have hle := s.le
  have hlast := getElem?_eq_getElem (show s.len - 1 < s.backing.length by omega)
  rw [removeFirst, hi, Option.bind_eq_bind, Option.bind_some, hlast]
  exact ⟨_, rfl⟩

/-! ## Ranging over a slice that is written to -/

/-- A loop has visited the first `i` elements of `s₀`, and deleted those with `gone`. -/
structure Ranged (s₀ : Slice α) (gone : α → Bool) (i : Nat) (s : Slice α) : Prop where
  unvisited : ∀ k, i ≤ k → s.backing[k]? = s₀.backing[k]?
  elements : s.toList.Perm ((s₀.toList.take i).filter (fun a => !gone a) ++ s₀.toList.drop i)

namespace Ranged

variable {s₀ s s' : Slice α} {gone p : α → Bool} {i : Nat} {a : α}

lemma start (s : Slice α) (gone : α → Bool) : Ranged s gone 0 s where
  unvisited _ _ := rfl
  elements := by
    rw [take_zero, drop_zero]
    exact .rfl

lemma finish (h : Ranged s₀ gone s₀.len s) :
    s.toList.Perm (s₀.toList.filter fun a => !gone a) := by
  have helems := h.elements
  rw [← length_toList, take_length, drop_length, append_nil] at helems
  exact helems

lemma read (h : Ranged s₀ gone i s) (hi : i < s₀.len) : s.backing[i]? = s₀.toList[i]? := by
  rw [h.unvisited i le_rfl, toList_getElem? s₀ hi]

lemma drop_eq_cons {l : List α} (ha : l[i]? = some a) : l.drop i = a :: l.drop (i + 1) := by
  obtain ⟨hi, rfl⟩ := List.getElem?_eq_some_iff.1 ha
  exact drop_eq_getElem_cons hi

lemma take_filter {l : List α} (ha : l[i]? = some a) (q : α → Bool) :
    (l.take (i + 1)).filter q = (l.take i).filter q ++ [a].filter q := by
  rw [take_add_one, ha, filter_append]
  rfl

lemma keep (h : Ranged s₀ gone i s) (ha : s₀.toList[i]? = some a) (hgone : gone a = false) :
    Ranged s₀ gone (i + 1) s where
  unvisited k hk := h.unvisited k (Nat.le_of_succ_le hk)
  elements := by
    have helems := h.elements
    rw [drop_eq_cons ha, append_cons] at helems
    rw [take_filter ha, filter_cons_of_pos (by simp [hgone]), filter_nil]
    exact helems

/-- The element that is visited is the one deleted, at or before the slot that is visited. -/
lemma remove (h : Ranged s₀ gone i s) (ha : s₀.toList[i]? = some a) (hgone : gone a = true)
    (hp : p a = true) (hunique : ∀ b ∈ s₀.toList, p b = true → b = a)
    (hremove : s.removeFirst p = some s') :
    Ranged s₀ gone (i + 1) s' ∧ s.toList.Perm (a :: s'.toList) := by
  obtain ⟨j, b, hj, hb, hperm, hwritten⟩ := removeFirst_spec hremove
  have helems := h.elements
  rw [drop_eq_cons ha] at helems
  have hmem : b ∈ s₀.toList := by
    rcases mem_append.1 (helems.mem_iff.1 (hperm.mem_iff.2 mem_cons_self)) with
      hkept | htodo
    · exact mem_of_mem_take (mem_of_mem_filter hkept)
    · rw [← drop_eq_cons ha] at htodo
      exact mem_of_mem_drop htodo
  obtain rfl := hunique b hmem hb
  -- if the slot is still in the slice, it holds the element
  have hji : j ≤ i := by
    obtain ⟨hlt, -, hbefore⟩ := findIdx?_eq_some_iff_getElem.1 hj
    rw [length_toList] at hlt
    by_contra hij
    have hi : i < s.len := by omega
    obtain ⟨hi0, -⟩ := List.getElem?_eq_some_iff.1 ha
    rw [length_toList] at hi0
    have hslot : s.toList[i]? = some b := by rw [toList_getElem? s hi, h.read hi0, ha]
    obtain ⟨hilt, hget⟩ := List.getElem?_eq_some_iff.1 hslot
    refine hbefore i (not_le.1 hij) ?_
    rw [hget]
    exact hp
  refine ⟨⟨fun k hk => ?_, ?_⟩, hperm⟩
  · rw [hwritten k (by omega), h.unvisited k (Nat.le_of_succ_le hk)]
  · rw [take_filter ha, filter_cons_of_neg (by simp [hgone]), filter_nil, append_nil]
    exact ((hperm.symm.trans helems).trans perm_middle).cons_inv

end Ranged

end Slice

end Kubernetes
