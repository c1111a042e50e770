import Kubernetes.Core

/-! # Comparing by several keys

Elements are to be sorted by a first key, then by a second one, and so on: by their lists of
scores in the lexicographic order. A comparison that only asks whether some key is smaller does
that exactly if the keys never disagree about two elements (`anyLess_iff`).
-/

namespace Kubernetes.KeyOrder

open List

variable {α κ : Type*} [LinearOrder κ] (keys : List (α → κ))

/-- Some key of `x` is smaller. -/
def AnyLess (x y : α) : Prop := ∃ k ∈ keys, k x < k y

/-- The values of the keys, the most important first. -/
def scores (x : α) : List κ := keys.map (· x)

/-- No two keys order `x` and `y` differently. -/
def Agree (x y : α) : Prop := (∀ k ∈ keys, k x ≤ k y) ∨ ∀ k ∈ keys, k y ≤ k x

variable {keys}

lemma anyLess_iff_scores {x y : α} (h : Agree keys x y) :
    AnyLess keys x y ↔ scores keys x < scores keys y := by
  unfold AnyLess scores
  induction keys with
  | nil => simp
  | cons k keys ih =>
    rw [map_cons, map_cons, cons_lt_cons_iff, exists_mem_cons_iff]
    rw [Agree, forall_mem_cons, forall_mem_cons] at h
    rw [← ih (h.imp And.right And.right)]
    rcases h with ⟨hk, -⟩ | ⟨hk, hkeys⟩
    · -- an equal key leaves the decision to the others
      rcases hk.lt_or_eq with hlt | heq
      · simp [hlt]
      · simp [heq]
    · have hnone : ¬∃ l ∈ keys, l x < l y := fun ⟨l, hl, hlt⟩ => absurd hlt (hkeys l hl).not_gt
      simp [hnone, hk.not_gt]

/-- Some key being smaller is a strict weak order on a set, and the lexicographic one, exactly
if the keys agree on the elements of the set. -/
theorem anyLess_iff (keys : List (α → κ)) (s : Set α) :
    (IsStrictWeakOrder s (fun x y => AnyLess keys x y) ∧
        ∀ x ∈ s, ∀ y ∈ s, AnyLess keys x y ↔ scores keys x < scores keys y) ↔
      ∀ x ∈ s, ∀ y ∈ s, Agree keys x y := by
  constructor
  · rintro ⟨-, hlex⟩ x hx y hy
    by_contra hagree
    simp only [Agree, not_or, not_forall, not_le] at hagree
    obtain ⟨⟨k, hk, hkxy⟩, l, hl, hlxy⟩ := hagree
    exact lt_asymm ((hlex y hy x hx).1 ⟨k, hk, hkxy⟩) ((hlex x hx y hy).1 ⟨l, hl, hlxy⟩)
  intro hagree
  have hlex : ∀ x ∈ s, ∀ y ∈ s, AnyLess keys x y ↔ scores keys x < scores keys y :=
    fun x hx y hy => anyLess_iff_scores (hagree x hx y hy)
  refine ⟨?_, hlex⟩
  have horder : (fun x y : s => AnyLess keys x y) =
      fun x y => scores keys x.1 < scores keys y.1 := by
    funext x y
    exact propext (hlex x x.2 y y.2)
  rw [horder]
  exact {
    irrefl := fun x => lt_irrefl _
    trans := fun x y z => lt_trans
    incomp_trans := fun x y z hxy hyz => by
      have hxy' := le_antisymm (not_lt.1 hxy.2) (not_lt.1 hxy.1)
      rw [hxy']
      exact hyz }

end Kubernetes.KeyOrder
