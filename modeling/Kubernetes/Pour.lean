import Kubernetes.Core

/-! # Filling a row of vessels from the front

An amount is distributed over a row of places, each place taking as much as it can hold before
the next one gets anything.

1. `sum_pour`: the row takes the whole amount, or all it can hold.
2. `pour_pairwise`: a place gets something only if the ones before it are filled.
3. `Packed`: the content of a row is at its front. `Packed.unique`: this determines the
   content by its amount. `Packed.pour` and `Packed.drain` say when filling and emptying the
   row from its front keep it packed.
-/

namespace Kubernetes

open List

variable {ι : Type*} [DecidableEq ι]

/-- What each place of a row gets of an amount, if it can take `room`. -/
def pour (room : ι → ℕ) : List ι → ℕ → ι → ℕ
  | [], _, _ => 0
  | i :: is, amount, k =>
    if k = i then min (room i) amount else pour room is (amount - room i) k

@[simp]
lemma pour_nil (room : ι → ℕ) (amount : ℕ) (k : ι) : pour room [] amount k = 0 := rfl

lemma pour_cons_self (room : ι → ℕ) (i : ι) (is : List ι) (amount : ℕ) :
    pour room (i :: is) amount i = min (room i) amount := if_pos rfl

variable {k : ι}

lemma pour_cons_ne (room : ι → ℕ) {i : ι} (is : List ι) (amount : ℕ) (h : k ≠ i) :
    pour room (i :: is) amount k = pour room is (amount - room i) k := if_neg h

lemma pour_le (room : ι → ℕ) (l : List ι) (amount : ℕ) (k : ι) : pour room l amount k ≤ room k := by
  induction l generalizing amount with
  | nil => exact Nat.zero_le _
  | cons i is ih =>
    by_cases h : k = i
    · subst h
      rw [pour_cons_self]
      exact min_le_left _ _
    · rw [pour_cons_ne room is amount h]
      exact ih _

variable {room cap content : ι → ℕ} {l : List ι} {amount : ℕ}

lemma pour_of_notMem (h : k ∉ l) :
    pour room l amount k = 0 := by
  induction l generalizing amount with
  | nil => rfl
  | cons i is ih =>
    rw [mem_cons, not_or] at h
    rw [pour_cons_ne room is amount h.1]
    exact ih h.2

lemma pour_congr {room' : ι → ℕ} (h : ∀ k ∈ l, room k = room' k) (amount : ℕ) (k : ι) :
    pour room l amount k = pour room' l amount k := by
  induction l generalizing amount with
  | nil => rfl
  | cons i is ih =>
    have hi := h i mem_cons_self
    by_cases hk : k = i
    · subst hk
      rw [pour_cons_self, pour_cons_self, hi]
    · rw [pour_cons_ne room is amount hk, pour_cons_ne room' is amount hk, hi]
      exact ih (forall_mem_cons.1 h).2 _

lemma sum_pour_tail (room : ι → ℕ) {i : ι} {is : List ι} (amount : ℕ) (h : i ∉ is) :
    (is.map (pour room (i :: is) amount)).sum = (is.map (pour room is (amount - room i))).sum := by
  congr 1
  refine map_congr_left fun k hk => ?_
  exact pour_cons_ne room is amount fun heq => h (heq ▸ hk)

theorem sum_pour (room : ι → ℕ) (hl : l.Nodup) (amount : ℕ) :
    (l.map (pour room l amount)).sum = min amount (l.map room).sum := by
  induction l generalizing amount with
  | nil => simp
  | cons i is ih =>
    rw [nodup_cons] at hl
    rw [map_cons, sum_cons, map_cons, sum_cons, pour_cons_self,
      sum_pour_tail room amount hl.1, ih hl.2]
    omega

/-- An amount that fills the row fills each place. -/
lemma pour_eq_of_sum_le (h : (l.map room).sum ≤ amount) (hk : k ∈ l) :
    pour room l amount k = room k := by
  induction l generalizing amount with
  | nil => cases hk
  | cons i is ih =>
    rw [map_cons, sum_cons] at h
    by_cases hki : k = i
    · subst hki
      rw [pour_cons_self]
      omega
    · rw [pour_cons_ne room is amount hki]
      exact ih (by omega) ((mem_cons.1 hk).resolve_left hki)

lemma pour_zero (room : ι → ℕ) (l : List ι) (k : ι) : pour room l 0 k = 0 := by
  induction l with
  | nil => rfl
  | cons i is ih =>
    by_cases hk : k = i
    · subst hk
      rw [pour_cons_self]
      exact min_eq_right (Nat.zero_le _)
    · rw [pour_cons_ne room is 0 hk, Nat.zero_sub]
      exact ih

/-- A place gets something only if the ones before it are filled. -/
lemma pour_pairwise (room : ι → ℕ) (hl : l.Nodup) (amount : ℕ) :
    l.Pairwise fun i j => 0 < pour room l amount j → pour room l amount i = room i := by
  induction l generalizing amount with
  | nil => exact List.Pairwise.nil
  | cons i is ih =>
    rw [nodup_cons] at hl
    have hne : ∀ k ∈ is, k ≠ i := fun k hk heq => hl.1 (heq ▸ hk)
    refine List.Pairwise.cons ?_ ?_
    · intro j hj hpos
      rw [pour_cons_ne room is amount (hne j hj)] at hpos
      rw [pour_cons_self]
      -- nothing would be left for the rest of the row
      by_contra hfull
      have hzero : amount - room i = 0 := by omega
      rw [hzero, pour_zero] at hpos
      exact Nat.lt_irrefl 0 hpos
    · refine (ih hl.2 (amount - room i)).imp_of_mem fun {a b} ha hb h => ?_
      rw [pour_cons_ne room is amount (hne a ha), pour_cons_ne room is amount (hne b hb)]
      exact h

/-! ## Packed rows -/

/-- The content of a row is at its front: what stands before a place with content is full. -/
def Packed (cap : ι → ℕ) (l : List ι) (content : ι → ℕ) : Prop :=
  l.Pairwise fun i j => content j = 0 ∨ content i = cap i

omit [DecidableEq ι] in
lemma Packed.empty (cap : ι → ℕ) (l : List ι) : Packed cap l fun _ => 0 :=
  pairwise_of_forall fun _ _ => .inl rfl

omit [DecidableEq ι] in
lemma Packed.congr {content' : ι → ℕ} (h : Packed cap l content)
    (heq : ∀ k ∈ l, content k = content' k) : Packed cap l content' :=
  List.Pairwise.imp_of_mem (fun {i j} hi hj hij => by rwa [← heq i hi, ← heq j hj]) h

omit [DecidableEq ι] in
theorem Packed.unique {content' : ι → ℕ} (h : Packed cap l content) (h' : Packed cap l content')
    (hle : ∀ k ∈ l, content k ≤ cap k) (hle' : ∀ k ∈ l, content' k ≤ cap k)
    (hsum : (l.map content).sum = (l.map content').sum) : ∀ k ∈ l, content k = content' k := by
  induction l with
  | nil =>
    intro k hk
    cases hk
  | cons i is ih =>
    unfold Packed at h h'
    rw [pairwise_cons] at h h'
    rw [map_cons, sum_cons, map_cons, sum_cons] at hsum
    -- a front place that is not full has everything
    have hfront : ∀ {c : ι → ℕ}, (∀ j ∈ is, c j = 0 ∨ c i = cap i) → c i ≠ cap i →
        (is.map c).sum = 0 := by
      intro c hc hne
      refine sum_eq_zero fun x hx => ?_
      obtain ⟨j, hj, rfl⟩ := mem_map.1 hx
      exact (hc j hj).resolve_right hne
    have hi : content i = content' i := by
      have hi := hle i mem_cons_self
      have hi' := hle' i mem_cons_self
      by_cases hfull : content i = cap i
      · by_cases hfull' : content' i = cap i
        · rw [hfull, hfull']
        · have hzero := hfront h'.1 hfull'
          omega
      · have hzero := hfront h.1 hfull
        by_cases hfull' : content' i = cap i
        · omega
        · have hzero' := hfront h'.1 hfull'
          omega
    intro k hk
    rcases mem_cons.1 hk with rfl | hk
    · exact hi
    · exact ih h.2 h'.2 (forall_mem_cons.1 hle).2
        (forall_mem_cons.1 hle').2 (by omega) k hk

theorem Packed.pour (hl : l.Nodup) (h : Packed cap l content) (hle : ∀ k, content k ≤ cap k)
    (amount : ℕ) :
    Packed cap l fun k => content k + pour (fun k => cap k - content k) l amount k := by
  refine (h.and (pour_pairwise (fun k => cap k - content k) hl amount)).imp fun {i j} hij => ?_
  obtain ⟨hpacked, hpour⟩ := hij
  beta_reduce
  have hi := hle i
  have hroom := pour_le (fun k => cap k - content k) l amount i
  rcases Nat.eq_zero_or_pos (Kubernetes.pour (fun k => cap k - content k) l amount j) with h0 | hpos
  · rcases hpacked with hj | hfull
    · exact .inl (by omega)
    · exact .inr (by omega)
  · exact .inr (by rw [hpour hpos]; omega)

/-- Taking an amount out of a packed row, from its front. -/
theorem Packed.drain (hl : l.Nodup) (h : Packed cap l content)
    (hok : amount = 0 ∨ (l.map content).sum = amount ∨
      ∀ i ∈ l, ∀ j ∈ l, 0 < content i → 0 < content j → i = j) :
    Packed cap l fun k => content k - Kubernetes.pour content l amount k := by
  rcases hok with rfl | hall | hone
  · refine h.congr fun k _ => ?_
    rw [pour_zero, Nat.sub_zero]
  · refine (Packed.empty cap l).congr fun k hk => ?_
    rw [pour_eq_of_sum_le hall.le hk, Nat.sub_self]
  refine (List.Pairwise.and_mem.1 (h.and hl)).imp fun {i j} hij => ?_
  obtain ⟨hi, hj, hpacked, hne⟩ := hij
  beta_reduce
  rcases Nat.eq_zero_or_pos (content j) with h0 | hpos
  · exact .inl (by omega)
  -- all of the content is at `j`, so that the places before it can hold nothing
  have hi0 : content i = 0 := by
    by_contra hi0
    exact hne (hone i hi j hj (Nat.pos_of_ne_zero hi0) hpos)
  exact .inr (by omega)

end Kubernetes
