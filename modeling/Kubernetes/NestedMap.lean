import Kubernetes.GoMap

/-! # Maps of maps

Values kept under two keys. An inner map that loses its last value is dropped. `values` lists
what is kept; putting a new value and deleting one change it by that value (`values_put`,
`values_delete`), and it can be listed in any order of the keys (`values_inOrder`).
-/

namespace Kubernetes.GoMap

open List AList

variable {K V : Type} [DecidableEq K]

lemma entries_perm_of_lookup {m : GoMap K V} {k : K} {v : V} (h : m.lookup k = some v) :
    m.entries.Perm (⟨k, v⟩ :: (m.erase k).entries) := by
  have hmem : k ∈ m.entries.keys := mem_keys.1 (mem_iff_lookup.2 ⟨v, h⟩)
  obtain ⟨v', l1, l2, hl1, heq, hrest⟩ := exists_of_kerase hmem
  have hv : v' = v := by
    have hlookup : dlookup k m.entries = some v := h
    rw [heq, dlookup_append, dlookup_eq_none.2 hl1] at hlookup
    simpa using hlookup
  subst hv
  show m.entries.Perm (⟨k, v'⟩ :: m.entries.kerase k)
  rw [hrest, heq]
  exact perm_middle

lemma erase_of_lookup {m : GoMap K V} {k : K} (h : m.lookup k = none) : m.erase k = m := by
  apply ext
  exact kerase_of_notMem_keys fun hmem => lookup_eq_none.1 h (mem_keys.2 hmem)

lemma filterMap_lookup_keys (m : GoMap K V) :
    m.keys.filterMap (fun k => m.lookup k) = m.entries.map (·.2) := by
  have hkeys : m.keys = m.entries.map Sigma.fst := rfl
  rw [hkeys, filterMap_map, ← filterMap_eq_map]
  refine filterMap_congr fun e he => ?_
  exact mem_lookup_iff.2 he

lemma flatMap_lookup_keys {W : Type} (m : GoMap K V) (d : V) (f : K → V → List W) :
    m.keys.flatMap (fun k => f k ((m.lookup k).getD d)) = m.entries.flatMap fun e => f e.1 e.2 := by
  have hkeys : m.keys = m.entries.map Sigma.fst := rfl
  rw [hkeys, flatMap_map]
  refine flatMap_congr fun e he => ?_
  have hlookup : m.lookup e.1 = some e.2 := mem_lookup_iff.2 he
  rw [hlookup, Option.getD_some]

end Kubernetes.GoMap

namespace Kubernetes.NestedMap

variable {K L V : Type} [DecidableEq K] [DecidableEq L] (m : GoMap K (GoMap L V)) (a : K)

/-- The value under two keys. -/
def get (b : L) : Option V :=
  (m.lookup a).bind fun inner => inner.lookup b

/-- Keep a value under two keys, in a new inner map if there is none. -/
def put (b : L) (v : V) : GoMap K (GoMap L V) :=
  m.insert a (((m.lookup a).getD ∅).insert b v)

/-- Delete a value, and its inner map if nothing else is in it. -/
def delete (b : L) : GoMap K (GoMap L V) :=
  let inner := ((m.lookup a).getD ∅).erase b
  if inner.keys = [] then m.erase a else m.insert a inner

/-- The values under all keys. -/
def values : List V :=
  m.entries.flatMap fun e => e.2.entries.map (·.2)

/-- The keys and values in the order of two nested ranges. -/
def inOrder (outer : IterOrder K) (inner : K → IterOrder L) : List (K × L × V) :=
  (outer.order m.keys).flatMap fun a =>
    let values := (m.lookup a).getD ∅
    ((inner a).order values.keys).filterMap fun b => (values.lookup b).map fun v => (a, b, v)

/-! ## Lookups -/

variable (m : GoMap K (GoMap L V))

lemma get_eq (a : K) (b : L) :
    get m a b = ((m.lookup a).getD ∅).lookup b := by
  unfold get
  cases m.lookup a with
  | none => rfl
  | some inner => rfl

open GoMap

lemma get_put (a : K) (b : L) (v : V) (a' : K) (b' : L) :
    get (put m a b v) a' b' = if a' = a ∧ b' = b then some v else get m a' b' := by
  rw [get_eq, get_eq, put, lookup_insert_if]
  by_cases ha : a' = a
  · subst ha
    rw [if_pos rfl, Option.getD_some, lookup_insert_if]
    by_cases hb : b' = b
    · rw [if_pos hb, if_pos ⟨rfl, hb⟩]
    · rw [if_neg hb, if_neg fun h => hb h.2]
  · rw [if_neg ha, if_neg fun h => ha h.1]

lemma get_delete (a : K) (b : L) (a' : K) (b' : L) :
    get (delete m a b) a' b' = if a' = a ∧ b' = b then none else get m a' b' := by
  have hinner : (delete m a b).lookup a' = if a' = a then
      (if (((m.lookup a).getD ∅).erase b).keys = [] then none
        else some (((m.lookup a).getD ∅).erase b)) else m.lookup a' := by
    unfold delete
    dsimp only
    split
    · exact lookup_erase_if m a a'
    · exact lookup_insert_if m a a' _
  rw [get_eq, get_eq, hinner]
  by_cases ha : a' = a
  · subst ha
    rw [if_pos rfl]
    have hlookup : (if (((m.lookup a').getD ∅).erase b).keys = [] then none
        else some (((m.lookup a').getD ∅).erase b)).getD ∅ = ((m.lookup a').getD ∅).erase b := by
      split_ifs with hnil
      · apply AList.ext
        exact (List.map_eq_nil_iff.1 hnil).symm
      · rfl
    rw [hlookup, GoMap.lookup_erase_if]
    by_cases hb : b' = b
    · rw [if_pos hb, if_pos ⟨rfl, hb⟩]
    · rw [if_neg hb, if_neg fun h => hb h.2]
  · rw [if_neg ha, if_neg fun h => ha h.1]

/-! ## Values -/

lemma mem_values {m : GoMap K (GoMap L V)} {v : V} :
    v ∈ values m ↔ ∃ a b, get m a b = some v := by
  unfold values get
  simp only [List.mem_flatMap, List.mem_map, Option.bind_eq_some_iff]
  constructor
  · rintro ⟨⟨a, inner⟩, ha, ⟨b, v'⟩, hb, rfl⟩
    exact ⟨a, b, inner, AList.mem_lookup_iff.2 ha, AList.mem_lookup_iff.2 hb⟩
  · rintro ⟨a, b, inner, ha, hb⟩
    exact ⟨⟨a, inner⟩, AList.mem_lookup_iff.1 ha, ⟨b, v⟩, AList.mem_lookup_iff.1 hb, rfl⟩

omit [DecidableEq L] in
lemma values_split (a : K) :
    (values m).Perm (((m.lookup a).getD ∅).entries.map (·.2) ++ values (m.erase a)) := by
  cases h : m.lookup a with
  | none =>
    rw [erase_of_lookup h]
    exact List.Perm.refl _
  | some inner => exact (entries_perm_of_lookup h).flatMap_right _

omit [DecidableEq L] in
lemma values_insert (a : K) (inner : GoMap L V) :
    values (m.insert a inner) = inner.entries.map (·.2) ++ values (m.erase a) := by
  unfold values
  rw [AList.entries_insert]
  rfl

theorem values_put {m : GoMap K (GoMap L V)} {a : K} {b : L} (h : get m a b = none) (v : V) :
    (values (put m a b v)).Perm (v :: values m) := by
  rw [get_eq] at h
  unfold put
  rw [values_insert, AList.entries_insert_of_notMem (AList.lookup_eq_none.1 h), List.map_cons,
    List.cons_append]
  exact (values_split m a).symm.cons v

theorem values_delete {m : GoMap K (GoMap L V)} {a : K} {b : L} {v : V} (h : get m a b = some v) :
    (values m).Perm (v :: values (delete m a b)) := by
  rw [get_eq] at h
  have hinner := (GoMap.entries_perm_of_lookup h).map (fun e => e.2)
  have hdelete : values (delete m a b) =
      (((m.lookup a).getD ∅).erase b).entries.map (·.2) ++ values (m.erase a) := by
    unfold delete
    dsimp only
    split_ifs with hnil
    · rw [List.map_eq_nil_iff.1 hnil]
      rfl
    · exact values_insert m a _
  rw [hdelete, ← List.cons_append]
  exact (values_split m a).trans (hinner.append_right _)

/-- Nested ranges visit every value once. -/
theorem values_inOrder (outer : IterOrder K) (inner : K → IterOrder L) :
    ((inOrder m outer inner).map fun e => e.2.2).Perm (values m) := by
  have hinner : ∀ (a : K) (vs : GoMap L V),
      ((((inner a).order vs.keys).filterMap fun b => (vs.lookup b).map fun v => (a, b, v)).map
        fun e => e.2.2).Perm (vs.entries.map (·.2)) := by
    intro a vs
    rw [← GoMap.filterMap_lookup_keys, List.map_filterMap]
    simp only [Option.map_map, Function.comp_def, Option.map_id']
    exact ((inner a).perm vs.keys).filterMap _
  unfold inOrder
  rw [List.map_flatMap]
  refine ((outer.perm m.keys).flatMap_right _).trans ?_
  rw [GoMap.flatMap_lookup_keys m ∅ fun a vs =>
    (((inner a).order vs.keys).filterMap fun b => (vs.lookup b).map fun v => (a, b, v)).map
      fun e => e.2.2]
  exact List.Perm.flatMap_left _ fun e _ => hinner e.1 e.2

end Kubernetes.NestedMap
