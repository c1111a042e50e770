import Kubernetes.Core

/-! # Streams of stamped messages with marks

A producer owes its consumer the messages of a list `t`, in order. Between them it may put
*marks*: a mark stamped `b` promises that everything owed up to `b` was sent before it.

`Serves sent rest t`: after `sent`, the messages `rest` are what is left of `t`, and every mark
keeps its promise. The rules say how a producer may go on: send the next message, send a mark
below everything left, take back what it sent last, or owe more.
-/

namespace Kubernetes.Watermark

open List

variable {α : Type} {mark : α → Bool} {stamp : α → ℕ}

/-- The messages of a stream, without the marks. -/
def data (mark : α → Bool) (l : List α) : List α := l.filter fun x => !mark x

lemma data_append (l1 l2 : List α) : data mark (l1 ++ l2) = data mark l1 ++ data mark l2 :=
  filter_append l1 l2

lemma mem_data {l : List α} {x : α} : x ∈ data mark l ↔ x ∈ l ∧ mark x = false := by
  unfold data
  rw [mem_filter, Bool.not_eq_true']

lemma data_of_forall {l : List α} (h : ∀ x ∈ l, mark x = false) : data mark l = l := by
  refine filter_eq_self.2 ?_
  intro x hx
  rw [h x hx]
  rfl

/-- `rest` is what is left of `t` after `sent`, and no mark was sent too early. -/
structure Serves (mark : α → Bool) (stamp : α → ℕ) (sent rest t : List α) : Prop where
  sum : data mark sent ++ rest = t
  behind : sent.Pairwise fun x y => mark x = true → mark y = false → stamp x < stamp y
  ahead : ∀ x ∈ sent, mark x = true → ∀ y ∈ rest, stamp x < stamp y

/-! ## First parts of lists -/

/-- A first part of the images comes from a first part of the list, one that ends with an element
that has an image. -/
lemma exists_of_isPrefix_filterMap {β : Type} {f : α → Option β} {l : List α} {p : List β}
    (h : p <+: l.filterMap f) :
    ∃ l1 l2, l = l1 ++ l2 ∧ p = l1.filterMap f ∧
      (l1 = [] ∨ ∃ l0 a b, l1 = l0 ++ [a] ∧ f a = some b) := by
  rcases h with ⟨q, hq⟩
  rcases filterMap_eq_append_iff.1 hq.symm with ⟨l1, l2, rfl, rfl, -⟩
  clear hq
  -- what `f` drops at the end of the first part goes to the second one
  induction l1 using reverseRecOn generalizing l2 with
  | nil => exact ⟨[], l2, rfl, rfl, Or.inl rfl⟩
  | append_singleton l0 a ih =>
    cases hf : f a with
    | none =>
      have hdrop : (l0 ++ [a]).filterMap f = l0.filterMap f := by simp [hf]
      rw [hdrop, append_assoc]
      exact ih (a :: l2)
    | some b => exact ⟨l0 ++ [a], l2, rfl, rfl, Or.inr ⟨l0, a, b, rfl, hf⟩⟩

/-- Of two ways to split a list, the first part that has nothing from the other's last part is
the shorter one. -/
lemma isPrefix_of_append_eq {l1 l2 p q : List α} {P : α → Prop} (h : l1 ++ l2 = p ++ q)
    (hl : ∀ x ∈ l1, P x) (hq : ∀ x ∈ q, ¬ P x) : l1 <+: p := by
  rcases append_eq_append_iff.1 h with ⟨a, hp, -⟩ | ⟨c, hl1, hq'⟩
  · exact ⟨a, hp.symm⟩
  cases c with
  | nil =>
    rw [append_nil] at hl1
    rw [hl1]
  | cons x c =>
    have hx : P x := hl x (by
      rw [hl1]
      exact mem_append_right _ mem_cons_self)
    refine absurd hx (hq x ?_)
    rw [hq']
    exact mem_cons_self

/-! ## Serving -/

namespace Serves

variable {sent rest t : List α}

lemma start (t : List α) : Serves mark stamp [] t t where
  sum := rfl
  behind := List.Pairwise.nil
  ahead := by
    intro x hx
    cases hx

/-- Send the next messages, without a mark. -/
lemma send {now : List α} (h : Serves mark stamp sent (now ++ rest) t)
    (hnow : ∀ x ∈ now, mark x = false) : Serves mark stamp (sent ++ now) rest t where
  sum := by rw [data_append, data_of_forall hnow, append_assoc, h.sum]
  behind := by
    refine pairwise_append.2 ⟨h.behind, ?_, ?_⟩
    · refine pairwise_of_forall_mem_list ?_
      intro x hx y _ hmark
      rw [hnow x hx] at hmark
      cases hmark
    · intro x hx y hy hmark _
      exact h.ahead x hx hmark y (mem_append_left _ hy)
  ahead := by
    intro x hx hmark y hy
    rcases mem_append.1 hx with hx | hx
    · exact h.ahead x hx hmark y (mem_append_right _ hy)
    · rw [hnow x hx] at hmark
      cases hmark

/-- Send marks that everything left is above of. -/
lemma sendMarks {marks : List α} (h : Serves mark stamp sent rest t)
    (hmark : ∀ x ∈ marks, mark x = true) (hbelow : ∀ x ∈ marks, ∀ y ∈ rest, stamp x < stamp y) :
    Serves mark stamp (sent ++ marks) rest t where
  sum := by
    have hnil : data mark marks = [] := by
      refine filter_eq_nil_iff.2 ?_
      intro x hx
      rw [hmark x hx]
      decide
    rw [data_append, hnil, append_nil, h.sum]
  behind := by
    refine pairwise_append.2 ⟨h.behind, ?_, ?_⟩
    · refine pairwise_of_forall_mem_list ?_
      intro x _ y hy _ hdata
      rw [hmark y hy] at hdata
      cases hdata
    · intro x _ y hy _ hdata
      rw [hmark y hy] at hdata
      cases hdata
  ahead := by
    intro x hx hm y hy
    rcases mem_append.1 hx with hx | hx
    · exact h.ahead x hx hm y hy
    · exact hbelow x hx y hy

/-- What was put last is taken back: its messages are left again. -/
lemma takeBack {back : List α} (h : Serves mark stamp (sent ++ back) rest t) :
    Serves mark stamp sent (data mark back ++ rest) t where
  sum := by rw [← append_assoc, ← data_append, h.sum]
  behind := (pairwise_append.1 h.behind).1
  ahead := by
    intro x hx hm y hy
    rcases mem_append.1 hy with hy | hy
    · rcases mem_data.1 hy with ⟨hy, hdata⟩
      exact (pairwise_append.1 h.behind).2.2 x hx y hy hm hdata
    · exact h.ahead x (mem_append_left _ hx) hm y hy

/-- More is owed, all of it above the marks sent so far. -/
lemma owe {more : List α} (h : Serves mark stamp sent rest t)
    (hmore : ∀ x ∈ sent, mark x = true → ∀ y ∈ more, stamp x < stamp y) :
    Serves mark stamp sent (rest ++ more) (t ++ more) where
  sum := by rw [← append_assoc, h.sum]
  behind := h.behind
  ahead := by
    intro x hx hm y hy
    rcases mem_append.1 hy with hy | hy
    · exact h.ahead x hx hm y hy
    · exact hmore x hx hm y hy

lemma data_isPrefix (h : Serves mark stamp sent rest t) : data mark sent <+: t :=
  ⟨rest, h.sum⟩

/-- The promise of a mark: what is owed up to its stamp was sent before it. -/
lemma before_mark {pre post : List α} {x : α}
    (h : Serves mark stamp (pre ++ x :: post) rest t) (hx : mark x = true) :
    ∃ late, t = data mark pre ++ late ∧ ∀ y ∈ late, stamp x < stamp y := by
  refine ⟨data mark (x :: post) ++ rest, ?_, ?_⟩
  · rw [← append_assoc, ← data_append, h.sum]
  intro y hy
  rcases mem_append.1 hy with hy | hy
  · rcases mem_data.1 hy with ⟨hy, hdata⟩
    rcases mem_cons.1 hy with rfl | hy
    · rw [hx] at hdata
      cases hdata
    · exact (pairwise_cons.1 (pairwise_append.1 h.behind).2.1).1 y hy hx hdata
  · exact h.ahead x (mem_append_right _ mem_cons_self) hx y hy

end Serves

end Kubernetes.Watermark
