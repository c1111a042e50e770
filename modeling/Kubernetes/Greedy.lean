import Kubernetes.Core
import Mathlib.Order.CompletePartialOrder

/-! # Keeping as much as a predicate allows

Elements come one by one, and each is kept if the predicate still holds with it. The
predicate is antitone: what is not allowed stays so when more is kept. It follows
(`Tight.run`) that in the end the predicate holds of what was kept and fails with any of
the elements that were dropped, in whatever order they came.
-/

namespace Kubernetes.Greedy

/-- What was kept so far, and what was dropped, in this order. -/
structure Choice (α : Type) where
  kept : Set α
  dropped : List α

variable {α : Type} (F : Set α → Prop)

open Classical in
/-- Keep `a` if that is allowed. -/
noncomputable def step (c : Choice α) (a : α) : Choice α :=
  if F (insert a c.kept) then { c with kept := insert a c.kept }
  else { c with dropped := c.dropped ++ [a] }

noncomputable def run (c : Choice α) (l : List α) : Choice α := l.foldl (step F) c

/-- Nothing that was dropped could be kept. -/
structure Tight (c : Choice α) : Prop where
  allowed : F c.kept
  needed : ∀ a ∈ c.dropped, ¬F (insert a c.kept)

variable {F} {c : Choice α}

lemma step_of_allowed {a : α} (h : F (insert a c.kept)) :
    step F c a = { c with kept := insert a c.kept } := if_pos h

lemma step_of_not_allowed {a : α} (h : ¬F (insert a c.kept)) :
    step F c a = { c with dropped := c.dropped ++ [a] } := if_neg h

lemma Tight.step (hF : Antitone F) (h : Tight F c) (a : α) : Tight F (step F c a) := by
  by_cases ha : F (insert a c.kept)
  · rw [step_of_allowed ha]
    constructor
    · exact ha
    intro b hb hkept
    have hsub : insert b c.kept ⊆ insert b (insert a c.kept) :=
      Set.insert_subset_insert (Set.subset_insert a c.kept)
    exact h.needed b hb (hF hsub hkept)
  · rw [step_of_not_allowed ha]
    constructor
    · exact h.allowed
    intro b hb
    rcases List.mem_append.1 hb with hb | hb
    · exact h.needed b hb
    · rwa [List.mem_singleton.1 hb]

theorem Tight.run (hF : Antitone F) (h : Tight F c) (l : List α) : Tight F (run F c l) := by
  induction l generalizing c with
  | nil => exact h
  | cons a l ih => exact ih (h.step hF a)

lemma run_append (F : Set α → Prop) (c : Choice α) (l l' : List α) :
    run F c (l ++ l') = run F (run F c l) l' := List.foldl_append

lemma Tight.notMem_kept (h : Tight F c) {a : α} (ha : a ∈ c.dropped) : a ∉ c.kept := by
  intro hkept
  refine h.needed a ha ?_
  rw [Set.insert_eq_of_mem hkept]
  exact h.allowed

lemma mem_step (a b : α) :
    b ∈ (step F c a).kept ∨ b ∈ (step F c a).dropped ↔ (b ∈ c.kept ∨ b ∈ c.dropped) ∨ b = a := by
  by_cases ha : F (insert a c.kept)
  · rw [step_of_allowed ha, Set.mem_insert_iff]
    tauto
  · rw [step_of_not_allowed ha, List.mem_append, List.mem_singleton, or_assoc]

lemma mem_run (l : List α) (b : α) :
    b ∈ (run F c l).kept ∨ b ∈ (run F c l).dropped ↔ (b ∈ c.kept ∨ b ∈ c.dropped) ∨ b ∈ l := by
  induction l generalizing c with
  | nil => simp [run]
  | cons a l ih =>
    rw [List.mem_cons, ← or_assoc, ← mem_step (F := F)]
    exact ih

/-- Elements are dropped in the order in which they come. -/
lemma dropped_run (l : List α) :
    ∃ d, (run F c l).dropped = c.dropped ++ d ∧ d.Sublist l := by
  induction l generalizing c with
  | nil => exact ⟨[], (List.append_nil _).symm, .slnil⟩
  | cons a l ih =>
    obtain ⟨d, hd, hsub⟩ := ih (c := step F c a)
    by_cases ha : F (insert a c.kept)
    · rw [step_of_allowed ha] at hd
      refine ⟨d, ?_, hsub.cons a⟩
      show (run F (step F c a) l).dropped = _
      rw [step_of_allowed ha, hd]
    · rw [step_of_not_allowed ha] at hd
      refine ⟨a :: d, ?_, hsub.cons_cons a⟩
      show (run F (step F c a) l).dropped = _
      rw [step_of_not_allowed ha, hd, List.append_assoc]
      rfl

lemma Tight.kept_run (hF : Antitone F) (h : Tight F c) (l : List α) :
    (Greedy.run F c l).kept =
      {a | ((a ∈ c.kept ∨ a ∈ c.dropped) ∨ a ∈ l) ∧ a ∉ (Greedy.run F c l).dropped} := by
  ext a
  rw [Set.mem_ofPred_eq, ← mem_run (F := F)]
  constructor
  · intro hkept
    exact ⟨.inl hkept, fun hdrop => (h.run hF l).notMem_kept hdrop hkept⟩
  · rintro ⟨hkept | hdrop, hnot⟩
    · exact hkept
    · exact absurd hdrop hnot

end Kubernetes.Greedy
