import Kubernetes.Core
import Mathlib.Data.List.AList

/-! # Finite maps

A Go map is an association list with distinct keys (`AList`). Its order is not
observable: code that ranges over a map takes the iteration order (`IterOrder`, or
the list of keys) as an argument, or is shown not to depend on it.

Besides the lookup rules in `if` form, there is one rule for loops that range
over a map (`foldl_view`): a loop whose body for key `k` touches only what
belongs to `k` does to each key what its own body does.
-/

namespace Kubernetes

open List AList

/-- A map from `K` to `V`. -/
abbrev GoMap (K V : Type) := AList (fun _ : K => V)

/-- The order in which a range over a map visits its keys. -/
structure IterOrder (K : Type) where
  order : List K → List K
  perm : ∀ keys, (order keys).Perm keys

namespace GoMap

variable {K V S R : Type} [DecidableEq K]

/-- Equality of maps by comparing their entries, so that it can be evaluated. -/
instance decidableEq [DecidableEq V] : DecidableEq (GoMap K V) := fun m n =>
  decidable_of_iff (m.entries = n.entries) AList.ext_iff.symm

variable (m : GoMap K V)

lemma lookup_insert_if (k k' : K) (v : V) :
    (m.insert k v).lookup k' = if k' = k then some v else m.lookup k' := by
  by_cases h : k' = k
  · subst h
    simp
  · rw [lookup_insert_ne h, if_neg h]

lemma lookup_erase_if (k k' : K) :
    (m.erase k).lookup k' = if k' = k then none else m.lookup k' := by
  by_cases h : k' = k
  · subst h
    simp
  · rw [lookup_erase_ne h, if_neg h]

lemma mem_iff_lookup {m : GoMap K V} {k : K} : k ∈ m ↔ ∃ v, m.lookup k = some v := by
  rw [← lookup_isSome, Option.isSome_iff_exists]

lemma length_keys_eq {W : Type} {m : GoMap K V} {n : GoMap K W}
    (h : ∀ k, (m.lookup k).isSome = (n.lookup k).isSome) : m.keys.length = n.keys.length := by
  refine List.Perm.length_eq ((perm_ext_iff_of_nodup m.keys_nodup n.keys_nodup).2 fun k => ?_)
  rw [← AList.mem_keys, ← AList.mem_keys, ← lookup_isSome, ← lookup_isSome, h k]

lemma erase_insert (k : K) (v : V) : (m.insert k v).erase k = m.erase k := by
  refine AList.ext ?_
  show (m.insert k v).entries.kerase k = m.entries.kerase k
  rw [entries_insert]
  exact kerase_cons_eq rfl

lemma lookup_cons_if (k k' : K) (v : V) (l : List (Sigma fun _ : K => V)) :
    List.dlookup k' (⟨k, v⟩ :: l) = if k' = k then some v else List.dlookup k' l := by
  by_cases h : k' = k
  · subst h
    simp
  · rw [dlookup_cons_ne _ _ h, if_neg h]

/-- A missing list is empty. -/
lemma forall_mem_getD {m : GoMap K (List V)} {k : K} {P : V → Prop}
    (h : ∀ l, m.lookup k = some l → ∀ x ∈ l, P x) : ∀ x ∈ (m.lookup k).getD [], P x := by
  cases hl : m.lookup k with
  | none => exact nofun
  | some l => exact h l hl

/-- A loop over the entries of a map. `view s k` is the part of the loop's state
that belongs to `k`; the body for `k` changes that part by `g` and no other. -/
theorem foldl_view (body : S → K → V → S) (view : S → K → R) (g : K → V → R → R)
    (hself : ∀ s k v, view (body s k v) k = g k v (view s k))
    (hother : ∀ s k v k', k' ≠ k → view (body s k v) k' = view s k')
    (m : GoMap K V) (s : S) (k : K) :
    view (m.entries.foldl (fun s e => body s e.1 e.2) s) k =
      (m.lookup k).elim (view s k) fun v => g k v (view s k) := by
  suffices hent : ∀ l : List (Sigma fun _ : K => V), l.NodupKeys → ∀ s,
      view (l.foldl (fun s e => body s e.1 e.2) s) k =
        (List.dlookup k l).elim (view s k) fun v => g k v (view s k) from
    hent m.entries m.nodupKeys s
  intro l hl s
  induction l generalizing s with
  | nil => rfl
  | cons e l ih =>
    obtain ⟨k0, v0⟩ := e
    rw [nodupKeys_cons] at hl
    rw [foldl_cons, ih hl.2, lookup_cons_if]
    by_cases h : k = k0
    · subst h
      rw [if_pos rfl, dlookup_eq_none.2 hl.1]
      exact hself s k v0
    · rw [if_neg h, hother s k0 v0 k h]

/-! ## Maps with other values -/

section

variable {W : Type}

/-- The map with every value changed by `f`. -/
def mapVal (f : V → W) (m : GoMap K V) : GoMap K W where
  entries := m.entries.map fun e => ⟨e.1, f e.2⟩
  nodupKeys := by
    have hkeys : (m.entries.map fun e => (⟨e.1, f e.2⟩ : Sigma fun _ : K => W)).keys =
        m.entries.keys := by
      simp [List.keys, Function.comp_def]
    show List.Nodup (List.keys _)
    rw [hkeys]
    exact m.nodupKeys

lemma lookup_mapVal (f : V → W) (m : GoMap K V) (k : K) :
    (mapVal f m).lookup k = (m.lookup k).map f := by
  obtain ⟨l, hl⟩ := m
  show List.dlookup k (l.map fun e => (⟨e.1, f e.2⟩ : Sigma fun _ : K => W)) =
    (List.dlookup k l).map f
  clear hl
  induction l with
  | nil => rfl
  | cons e l ih =>
    obtain ⟨k', v⟩ := e
    rw [map_cons, lookup_cons_if, lookup_cons_if, ih]
    by_cases hk : k = k'
    · rw [if_pos hk, if_pos hk, Option.map_some]
    · rw [if_neg hk, if_neg hk]

/-- Fill a new map with the values changed by a function that may fail. -/
def mapValM (f : V → Option W) (m : GoMap K V) : Option (GoMap K W) :=
  m.entries.foldr (fun e filled => do
    let filled ← filled
    let v ← f e.2
    return filled.insert e.1 v) (some ∅)

/-- Reading back what was written value by value. -/
lemma mapValM_mapVal {f : V → W} {g : W → Option V} {m : GoMap K V}
    (h : ∀ e ∈ m.entries, g (f e.2) = some e.2) : mapValM g (mapVal f m) = some m := by
  obtain ⟨l, hl⟩ := m
  unfold mapValM mapVal
  dsimp only at h ⊢
  induction l with
  | nil => rfl
  | cons e l ih =>
    obtain ⟨k, v⟩ := e
    rw [nodupKeys_cons] at hl
    have hg : g (f v) = some v := h ⟨k, v⟩ mem_cons_self
    rw [map_cons, foldr_cons, ih hl.2 (forall_mem_cons.1 h).2]
    simp only [hg, Option.bind_eq_bind, Option.bind_some, pure]
    congr 1
    apply AList.ext
    exact entries_insert_of_notMem hl.1

end

/-- A sequence of two fallible computations succeeds if both do. -/
lemma bind_eq_ok {α β ε : Type} {x : Except ε α} {f : α → Except ε β} {b : β} :
    x >>= f = .ok b ↔ ∃ a, x = .ok a ∧ f a = .ok b := by
  cases x with
  | error e =>
    constructor
    · intro h
      cases h
    · rintro ⟨_, h, _⟩
      cases h
  | ok a =>
    constructor
    · intro h
      exact ⟨a, rfl, h⟩
    · rintro ⟨_, h, hf⟩
      cases h
      exact hf

lemma mapError_eq_ok {α ε ε' : Type} {x : Except ε α} {f : ε → ε'} {a : α} :
    x.mapError f = .ok a ↔ x = .ok a := by
  cases x <;> simp [Except.mapError]

variable {E ε : Type} (body : S → E → Except ε S)

/-- A fallible loop whose body never fails is a plain loop. -/
lemma foldlM_eq_ok (f : S → E → S) (l : List E)
    (h : ∀ s, ∀ e ∈ l, body s e = .ok (f s e)) (s : S) :
    l.foldlM body s = .ok (l.foldl f s) := by
  induction l generalizing s with
  | nil => rfl
  | cons e l ih =>
    rw [foldlM_cons, h s e mem_cons_self]
    exact ih (fun s e he => h s e (mem_cons_of_mem _ he)) (f s e)

/-- What every iteration of a fallible loop keeps holds when it ends. -/
lemma foldlM_invariant (inv : S → Prop) {l : List E}
    {s s' : S} (hinit : inv s) (hstep : ∀ s s', ∀ e ∈ l, inv s → body s e = .ok s' → inv s')
    (h : l.foldlM body s = .ok s') : inv s' := by
  induction l generalizing s with
  | nil =>
    cases h
    exact hinit
  | cons e l ih =>
    rw [foldlM_cons] at h
    obtain ⟨s1, hs1, h⟩ := bind_eq_ok.1 h
    exact ih (hstep s s1 e mem_cons_self hinit hs1)
      (fun s s' e he => hstep s s' e (mem_cons_of_mem _ he)) h

/-- A loop that collects some of the elements collects them in their order. -/
lemma foldlM_sublist {body : S → E → Except ε S} (view : S → List E)
    (hstep : ∀ s s' e, body s e = .ok s' → view s' = view s ∨ view s' = view s ++ [e]) {l : List E}
    {s s' : S} (h : l.foldlM body s = .ok s') : ∃ d, view s' = view s ++ d ∧ d.Sublist l := by
  induction l generalizing s with
  | nil =>
    cases h
    exact ⟨[], (append_nil _).symm, .slnil⟩
  | cons e l ih =>
    rw [foldlM_cons] at h
    obtain ⟨s1, hs1, h⟩ := bind_eq_ok.1 h
    obtain ⟨d, hd, hsub⟩ := ih h
    rcases hstep s s1 e hs1 with hkept | hkept
    · exact ⟨d, hkept ▸ hd, hsub.cons e⟩
    · refine ⟨e :: d, ?_, hsub.cons_cons e⟩
      rw [hd, hkept, append_assoc, singleton_append]

/-- A loop that can collect every element collects the list. -/
lemma exists_foldlM_append (view : S → List E)
    {l : List E} (hstep : ∀ s, ∀ e ∈ l, ∃ s', body s e = .ok s' ∧ view s' = view s ++ [e]) (s : S) :
    ∃ s', l.foldlM body s = .ok s' ∧ view s' = view s ++ l := by
  induction l generalizing s with
  | nil => exact ⟨s, rfl, (append_nil _).symm⟩
  | cons e l ih =>
    obtain ⟨s1, hs1, hview⟩ := hstep s e mem_cons_self
    obtain ⟨s', hs', hview'⟩ := ih (fun s e he => hstep s e (mem_cons_of_mem _ he)) s1
    refine ⟨s', ?_, ?_⟩
    · rw [foldlM_cons, hs1]
      exact hs'
    · rw [hview', hview, append_assoc, singleton_append]

lemma foldlM_range_invariant (body : S → Nat → Except ε S) (inv : Nat → S → Prop)
    {n : Nat} {s s' : S} (hinit : inv 0 s)
    (hstep : ∀ i < n, ∀ s s', inv i s → body s i = .ok s' → inv (i + 1) s')
    (h : (List.range n).foldlM body s = .ok s') : inv n s' := by
  induction n generalizing s' with
  | zero =>
    cases h
    exact hinit
  | succ n ih =>
    rw [List.range_succ, foldlM_append] at h
    obtain ⟨s1, hs1, h⟩ := bind_eq_ok.1 h
    rw [foldlM_cons] at h
    obtain ⟨s2, hs2, h⟩ := bind_eq_ok.1 h
    obtain rfl : s2 = s' := Except.ok.inj h
    exact hstep n (Nat.lt_succ_self n) s1 s2
      (ih (fun i hi => hstep i (Nat.lt_succ_of_lt hi)) hs1) hs2

end GoMap

end Kubernetes
