import Kubernetes.Core

/-! # The best element seen so far

A loop that walks a list and keeps the element with the least key, replacing it only by a
strictly better one. The result is an element of the list (`run_mem`), no element is better
(`key_run_le`), and if different elements have different keys it depends only on which
elements are there (`run_congr`), not on their order or number.

A loop may also keep all the elements with the least key, and further loops decide between
them. What is left has the least keys in the lexicographic order (`narrow_minimal`).
-/

namespace Kubernetes.Best

open List

variable {α κ : Type*} [LinearOrder κ] (key : α → κ)

/-- Replace the best element so far by a strictly better one. -/
def pick (best x : α) : α := if key x < key best then x else best

/-- The best of `best` and the elements of a list. -/
def run (best : α) (l : List α) : α := l.foldl (pick key) best

variable {key}

@[simp]
lemma run_nil (best : α) : run key best [] = best := rfl

@[simp]
lemma run_cons (best x : α) (l : List α) : run key best (x :: l) = run key (pick key best x) l :=
  rfl

lemma pick_eq_or (key : α → κ) (best x : α) : pick key best x = best ∨ pick key best x = x := by
  unfold pick
  split
  · exact .inr rfl
  · exact .inl rfl

lemma key_pick_le (best x : α) : key (pick key best x) ≤ key best ∧ key (pick key best x) ≤ key x := by
  unfold pick
  split_ifs with h
  · exact ⟨h.le, le_refl _⟩
  · exact ⟨le_refl _, not_lt.1 h⟩

theorem run_mem (key : α → κ) (best : α) (l : List α) : run key best l ∈ best :: l := by
  induction l generalizing best with
  | nil => simp
  | cons x l ih =>
    rw [run_cons]
    rcases mem_cons.1 (ih (pick key best x)) with h | h
    · rw [h]
      rcases pick_eq_or key best x with hp | hp
      · simp [hp]
      · simp [hp]
    · exact mem_cons_of_mem _ (mem_cons_of_mem _ h)

theorem key_run_le (best : α) (l : List α) : ∀ x ∈ best :: l, key (run key best l) ≤ key x := by
  induction l generalizing best with
  | nil =>
    intro x hx
    rw [mem_singleton.1 hx]
    exact le_refl _
  | cons y l ih =>
    intro x hx
    rw [run_cons]
    have hpick : key (run key (pick key best y) l) ≤ key (pick key best y) :=
      ih _ _ mem_cons_self
    rcases mem_cons.1 hx with rfl | hx
    · exact hpick.trans (key_pick_le x y).1
    · rcases mem_cons.1 hx with rfl | hx
      · exact hpick.trans (key_pick_le best x).2
      · exact ih _ _ (mem_cons_of_mem _ hx)

theorem run_congr {best best' : α} {l l' : List α} (hinj : Set.InjOn key {x | x ∈ best :: l})
    (h : ∀ x, x ∈ best :: l ↔ x ∈ best' :: l') : run key best l = run key best' l' := by
  have hmem := run_mem key best l
  have hmem' := (h _).2 (run_mem key best' l')
  refine hinj hmem hmem' (le_antisymm ?_ ?_)
  · exact key_run_le best l _ hmem'
  · exact key_run_le best' l' _ ((h _).1 hmem)

/-! ## All elements with the least key -/

/-- The least key so far, and the elements with it. -/
def keep (key : α → κ) (s : κ × List α) (x : α) : κ × List α :=
  let s := if key x < s.1 then (key x, []) else s
  if key x = s.1 then (s.1, s.2 ++ [x]) else s

/-- The elements with the least key, among the keys up to a bound. -/
def least (key : α → κ) (bound : κ) (l : List α) : List α := (l.foldl (keep key) (bound, [])).2

lemma mem_keep {s : κ × List α} (hs : ∀ x ∈ s.2, key x = s.1) {l : List α} {x : α} :
    x ∈ (l.foldl (keep key) s).2 ↔ (x ∈ s.2 ∨ x ∈ l ∧ key x ≤ s.1) ∧ ∀ y ∈ l, key x ≤ key y := by
  induction l generalizing s with
  | nil => simp
  | cons a l ih =>
    rw [foldl_cons, ih]
    · unfold keep
      grind
    · unfold keep
      grind

lemma mem_least {bound : κ} {l : List α} (hbound : ∀ x ∈ l, key x ≤ bound) {x : α} :
    x ∈ least key bound l ↔ x ∈ l ∧ ∀ y ∈ l, key x ≤ key y := by
  rw [least, mem_keep nofun]
  grind

/-- Keep the elements with the least key, one key after the other, until there is only one; `last`
decides at the end. -/
def narrow (last : List α → Option α) : List ((α → κ) × κ) → List α → Option α
  | [], l => last l
  | stage :: stages, l =>
    match least stage.1 stage.2 l with
    | [x] => some x
    | l => narrow last stages l

theorem narrow_minimal {last : List α → Option α} (hlast : ∀ l ≠ [], ∃ x ∈ l, last l = some x)
    {stages : List ((α → κ) × κ)} {l : List α} (hne : l ≠ [])
    (hbound : ∀ stage ∈ stages, ∀ x ∈ l, stage.1 x ≤ stage.2) :
    ∃ x ∈ l, narrow last stages l = some x ∧
      ∀ y ∈ l, ¬ stages.map (fun stage => stage.1 y) < stages.map fun stage => stage.1 x := by
  induction stages generalizing l with
  | nil =>
    obtain ⟨x, hx, heq⟩ := hlast l hne
    exact ⟨x, hx, heq, fun y _ => by simp⟩
  | cons stage stages ih =>
    have hmem : ∀ x, x ∈ least stage.1 stage.2 l ↔ x ∈ l ∧ ∀ y ∈ l, stage.1 x ≤ stage.1 y :=
      fun x => mem_least (hbound stage mem_cons_self)
    -- a least element that beats no other one by the later keys
    have hfrom : ∀ x ∈ least stage.1 stage.2 l,
        (∀ y ∈ least stage.1 stage.2 l,
          ¬ stages.map (fun stage => stage.1 y) < stages.map fun stage => stage.1 x) →
        ∀ y ∈ l, ¬ (stage :: stages).map (fun stage => stage.1 y) <
          (stage :: stages).map fun stage => stage.1 x := by
      intro x hx hlater y hy hlt
      rw [map_cons, map_cons, cons_lt_cons_iff] at hlt
      rcases hlt with hlt | ⟨heq, hlt⟩
      · exact absurd hlt (not_lt.2 (((hmem x).1 hx).2 y hy))
      · exact hlater y ((hmem y).2 ⟨hy, heq ▸ ((hmem x).1 hx).2⟩) hlt
    unfold narrow
    split
    · -- a single candidate is returned at once: there is nothing for the later keys to decide
      rename_i x hone
      have hx : x ∈ least stage.1 stage.2 l := by
        rw [hone]
        exact mem_cons_self
      refine ⟨x, ((hmem x).1 hx).1, rfl, hfrom x hx fun y hy => ?_⟩
      rw [hone, mem_singleton] at hy
      rw [hy]
      exact List.lt_irrefl _
    · have hsub : ∀ x ∈ least stage.1 stage.2 l, x ∈ l := fun x hx => ((hmem x).1 hx).1
      have hnext : least stage.1 stage.2 l ≠ [] := by
        obtain ⟨a, l, rfl⟩ := exists_cons_of_ne_nil hne
        exact ne_nil_of_mem ((hmem _).2 ⟨run_mem stage.1 a l, key_run_le a l⟩)
      obtain ⟨x, hx, heq, hmin⟩ := ih hnext fun s hs x hx =>
        hbound s (mem_cons_of_mem _ hs) x (hsub x hx)
      exact ⟨x, hsub x hx, heq, hfrom x hx hmin⟩

end Kubernetes.Best
