import Kubernetes.Controllers.Job
import Mathlib.Data.Int.Range

/-! # Completing an Indexed job

An Indexed job with `n` completions should be complete only if every index below `n` has a
succeeded pod, and a sync should create pods for indexes below `n` only that no succeeded or
active pod has, one for each.

The second always holds (`progressJob_created`). The first does not: the sync counts the indexes of all
succeeded pods, also those that are not below `n` (`completed_by_foreign_index`).
`indexed_job_complete_iff` says exactly when it does.
-/

namespace Kubernetes.Controllers.JobController

open Decimal Finset
open List hiding Disjoint

/-! ## Counting succeeded indexes -/

/-- The largest index. The successor of no other index overflows. -/
def maxIndex : ℤ := 2 ^ 63 - 1

lemma getCompletionIndex_bounds (p : Pod) :
    getCompletionIndex p = unknownCompletionIndex ∨
      0 ≤ getCompletionIndex p ∧ getCompletionIndex p ≤ maxIndex := by
  unfold getCompletionIndex
  split
  · exact Or.inl rfl
  rename_i i hi
  split
  · exact Or.inl rfl
  right
  rcases Option.bind_eq_some_iff.1 hi with ⟨v, -, hv⟩
  have hrange := (Option.filter_eq_some_iff.1 hv).2
  rw [decide_eq_true_eq] at hrange
  unfold maxIndex
  omega

def succeededIndexes (pods : List Pod) : List ℤ :=
  ((pods.filter fun p => p.phase = .succeeded).map getCompletionIndex).filter
    (· ≠ unknownCompletionIndex)

variable {i x a b candidate : ℤ} {pods : List Pod}

lemma mem_indexes {keep : Pod → Bool} :
    i ∈ ((pods.filter keep).map getCompletionIndex).filter (· ≠ unknownCompletionIndex) ↔
      i ≠ unknownCompletionIndex ∧ ∃ p ∈ pods, getCompletionIndex p = i ∧ keep p = true := by
  rw [List.mem_filter, List.mem_map, decide_eq_true_eq, and_comm]
  refine and_congr_right fun _ => exists_congr fun p => ?_
  rw [List.mem_filter, and_assoc, and_comm (a := keep p = true)]

lemma mem_succeededIndexes :
    i ∈ succeededIndexes pods ↔
      i ≠ unknownCompletionIndex ∧ ∃ p ∈ pods, getCompletionIndex p = i ∧ p.phase = .succeeded := by
  unfold succeededIndexes
  simp only [mem_indexes, decide_eq_true_eq]

lemma succeededIndexes_perm {pods' : List Pod} (h : pods.Perm pods') :
    (succeededIndexes pods).Perm (succeededIndexes pods') :=
  ((h.filter _).map _).filter _

lemma succeededIndexes_bounds (h : i ∈ succeededIndexes pods) :
    0 ≤ i ∧ i ≤ maxIndex := by
  rcases mem_succeededIndexes.1 h with ⟨hne, p, -, rfl, -⟩
  exact (getCompletionIndex_bounds p).resolve_left hne

lemma succeededIndexes_sorted
    (h : pods.Pairwise fun p q => getCompletionIndex p ≤ getCompletionIndex q) :
    (succeededIndexes pods).Pairwise (· ≤ ·) :=
  ((pairwise_map.2 (h.filter _))).filter _

/-- The number that the sync counts: equal indexes count once, except for the largest one. -/
def distinct (l : List ℤ) : ℕ := (l.filter (· ≠ maxIndex)).toFinset.card + l.count maxIndex

variable {l nps : List ℤ}

lemma distinct_perm {l' : List ℤ} (h : l.Perm l') : distinct l = distinct l' := by
  unfold distinct
  rw [h.count_eq, toFinset_eq_of_perm _ _ (h.filter _)]

lemma distinct_cons_max (l : List ℤ) : distinct (maxIndex :: l) = distinct l + 1 := by
  unfold distinct
  rw [count_cons_self, filter_cons_of_neg (by simp)]
  omega

lemma distinct_cons (hx : x ≠ maxIndex) :
    distinct (x :: l) = distinct l + if x ∈ l then 0 else 1 := by
  have hmem : x ∈ (l.filter (· ≠ maxIndex)).toFinset ↔ x ∈ l := by simp [hx]
  unfold distinct
  rw [List.filter_cons_of_pos (by simpa using hx), toFinset_cons, card_insert_eq_ite,
    count_cons_of_ne hx]
  simp only [hmem]
  split_ifs <;> omega

lemma distinct_nil : distinct [] = 0 := by simp [distinct]

lemma distinct_singleton (x : ℤ) : distinct [x] = 1 := by
  by_cases hx : x = maxIndex
  · rw [hx, distinct_cons_max, distinct_nil]
  · rw [distinct_cons hx, if_neg not_mem_nil, distinct_nil]

lemma distinct_cons_sorted {y : ℤ} (h : (x :: y :: l).Pairwise (· ≤ ·)) (hy : y ≤ maxIndex) :
    distinct (x :: y :: l) =
      distinct (y :: l) + if y = x ∧ y ≠ maxIndex then 0 else 1 := by
  rcases pairwise_cons.1 h with ⟨hfirst, htail⟩
  rcases pairwise_cons.1 htail with ⟨hsecond, -⟩
  by_cases heq : y = x
  · subst heq
    by_cases hmax : y = maxIndex
    · rw [if_neg (by tauto), hmax, distinct_cons_max]
    · rw [if_pos ⟨rfl, hmax⟩, distinct_cons hmax, if_pos List.mem_cons_self]
  · have hlt : x < y := lt_of_le_of_ne (hfirst y mem_cons_self) (Ne.symm heq)
    have hnot : x ∉ y :: l := by
      intro hmem
      rcases mem_cons.1 hmem with rfl | hmem
      · exact heq rfl
      · exact absurd (hsecond x hmem) (not_le.2 hlt)
    rw [if_neg (fun hand => heq hand.1), distinct_cons (by omega), if_neg hnot]

lemma distinct_le_length (l : List ℤ) : distinct l ≤ l.length := by
  induction l with
  | nil => exact le_rfl
  | cons x l ih =>
    rw [length_cons]
    by_cases hx : x = maxIndex
    · rw [hx, distinct_cons_max]
      omega
    rw [distinct_cons hx]
    split <;> omega

namespace Scan

/-- The count, were the run to end now. -/
def total (s : Scan) : ℤ := s.finish.count

/-- A run is open, and no further index is smaller. -/
structure Open (s : Scan) : Prop where
  nonneg : 0 ≤ s.firstSucceeded
  le : s.firstSucceeded ≤ s.lastSucceeded
  bounded : s.lastSucceeded ≤ maxIndex

variable {s : Scan}

lemma Open.total_eq (h : s.Open) :
    s.total = int32 (s.count + (s.lastSucceeded - s.firstSucceeded + 1)) := by
  have hne : s.firstSucceeded ≠ minInt32 := by
    have hpos := h.nonneg
    unfold minInt32
    omega
  unfold total finish
  rw [if_neg hne]
  unfold endRun int32 int64
  dsimp only
  omega

lemma start_next (ix : ℤ) (h : 0 ≤ ix ∧ ix ≤ maxIndex) :
    (start.next ix).Open ∧ (start.next ix).lastSucceeded = ix ∧ (start.next ix).total = 1 := by
  have hopen : (start.next ix).Open := ⟨h.1, Int.le_refl _, h.2⟩
  refine ⟨hopen, rfl, ?_⟩
  rw [hopen.total_eq]
  show int32 (0 + (ix - ix + 1)) = 1
  rw [int32_of_bounds (by omega)]
  omega

open Scan

/-- A further index counts, unless it is the one before. The run goes on after the largest index
only if it is not read again, since the successor of that index is negative. -/
lemma Open.next (h : s.Open) {ix : ℤ} (hle : s.lastSucceeded ≤ ix) (hix : ix ≤ maxIndex) :
    (s.next ix).Open ∧ (s.next ix).lastSucceeded = ix ∧
      (s.next ix).total =
        int32 (s.total + if ix = s.lastSucceeded ∧ ix ≠ maxIndex then 0 else 1) := by
  rcases id h with ⟨hnonneg, hrun, hbounded⟩
  have hne : s.firstSucceeded ≠ minInt32 := by
    unfold minInt32
    omega
  have hmax : maxIndex = 2 ^ 63 - 1 := rfl
  by_cases hnew : int64 (s.lastSucceeded + 1) < ix
  · have heq : s.next ix = { s.endRun with firstSucceeded := ix, lastSucceeded := ix } := by
      unfold Scan.next
      rw [if_neg hne, if_pos hnew]
    have hopen : (s.next ix).Open := by
      rw [heq]
      exact ⟨by show 0 ≤ ix; omega, Int.le_refl _, hix⟩
    have hcount : ¬ (ix = s.lastSucceeded ∧ ix ≠ maxIndex) := by
      rintro ⟨rfl, hother⟩
      rw [int64_of_bounds (by omega) (by omega)] at hnew
      omega
    refine ⟨hopen, by rw [heq], ?_⟩
    rw [hopen.total_eq, h.total_eq, if_neg hcount, heq]
    unfold endRun int32 int64
    dsimp only
    omega
  · have heq : s.next ix = { s with lastSucceeded := ix } := by
      unfold Scan.next
      rw [if_neg hne, if_neg hnew]
    have hopen : (s.next ix).Open := by
      rw [heq]
      exact ⟨hnonneg, by show s.firstSucceeded ≤ ix; omega, hix⟩
    have hlast : s.lastSucceeded ≠ maxIndex := by
      intro hlast
      rw [hlast] at hnew hle
      exact hnew (by unfold int64; omega)
    rw [int64_of_bounds (by omega) (by omega)] at hnew
    refine ⟨hopen, by rw [heq], ?_⟩
    rw [hopen.total_eq, h.total_eq, heq]
    dsimp only
    split_ifs with hsame
    · rw [hsame.1]
      unfold int32
      omega
    · unfold int32
      omega

lemma Open.foldl (h : s.Open) (hsorted : (s.lastSucceeded :: l).Pairwise (· ≤ ·))
    (hl : ∀ i ∈ l, i ≤ maxIndex) :
    (l.foldl Scan.next s).total = int32 (s.total + (distinct (s.lastSucceeded :: l) - 1)) := by
  induction l generalizing s with
  | nil =>
    rw [distinct_singleton]
    show s.total = _
    rw [h.total_eq]
    unfold int32
    omega
  | cons ix l ih =>
    rcases pairwise_cons.1 hsorted with ⟨hfirst, hsorted⟩
    have hle := hfirst ix mem_cons_self
    rcases h.next hle (hl ix mem_cons_self) with ⟨hopen, hlast, htotal⟩
    have hih := ih hopen (by rw [hlast]; exact hsorted) (forall_mem_cons.1 hl).2
    rw [hlast, htotal] at hih
    rw [foldl_cons, hih]
    rw [distinct_cons_sorted (pairwise_cons.2 ⟨hfirst, hsorted⟩) (hl ix mem_cons_self)]
    unfold int32
    split <;> omega

/-- The scan counts the distinct indexes of a sorted list. -/
lemma total_foldl (hsorted : l.Pairwise (· ≤ ·))
    (hl : ∀ i ∈ l, 0 ≤ i ∧ i ≤ maxIndex) : (l.foldl next start).total = int32 (distinct l) := by
  cases l with
  | nil =>
    rw [distinct_nil]
    rfl
  | cons ix l =>
    rcases start_next ix (hl ix List.mem_cons_self) with ⟨hopen, hlast, htotal⟩
    rw [foldl_cons, hopen.foldl (by rw [hlast]; exact hsorted)
      (fun i hi => (hl i (List.mem_cons_of_mem _ hi)).2), hlast, htotal]
    congr 1
    ring

lemma foldl_step (pods : List Pod) (s : Scan) :
    pods.foldl step s = (succeededIndexes pods).foldl next s := by
  induction pods generalizing s with
  | nil => rfl
  | cons p pods ih =>
    rw [foldl_cons, ih]
    unfold step succeededIndexes
    dsimp only
    by_cases hphase : p.phase = .succeeded
    · rw [List.filter_cons_of_pos (by simpa using hphase), List.map_cons]
      by_cases hix : getCompletionIndex p = unknownCompletionIndex
      · rw [if_pos hix, List.filter_cons_of_neg (by simpa using hix)]
      · rw [if_neg hix, if_pos hphase, List.filter_cons_of_pos (by simpa using hix), foldl_cons]
    · rw [List.filter_cons_of_neg (by simpa using hphase), if_neg hphase]
      split <;> rfl

end Scan

lemma calculateSucceededIndexes_count (env : Env) (pods : List Pod) :
    (calculateSucceededIndexes env pods).2 = int32 (distinct (succeededIndexes pods)) := by
  have hperm := succeededIndexes_perm (env.sortByCompletionIndex_perm pods)
  show (((env.sortByCompletionIndex pods).foldl Scan.step Scan.start).finish).count = _
  rw [Scan.foldl_step, ← distinct_perm hperm]
  exact Scan.total_foldl (succeededIndexes_sorted (env.sortByCompletionIndex_sorted pods))
    fun i hi => succeededIndexes_bounds hi

/-! ### Missing indexes -/

/-- The indexes from 0 to `n - 1`. -/
def indexesBelow (n : ℤ) : Finset ℤ := (Finset.range n.toNat).image Int.ofNat

variable {n : ℤ}

lemma mem_indexesBelow : i ∈ indexesBelow n ↔ 0 ≤ i ∧ i < n := by
  unfold indexesBelow
  rw [mem_image]
  constructor
  · rintro ⟨k, hk, rfl⟩
    have hlt := Finset.mem_range.1 hk
    exact ⟨Int.natCast_nonneg k, Int.lt_toNat.1 hlt⟩
  · rintro ⟨hnonneg, hlt⟩
    refine ⟨i.toNat, Finset.mem_range.2 ?_, Int.toNat_of_nonneg hnonneg⟩
    omega

lemma card_indexesBelow (n : ℤ) : (indexesBelow n).card = n.toNat := by
  unfold indexesBelow
  rw [card_image_of_injective _ (fun _ _ h => Int.ofNat.inj h), card_range]

/-- The indexes below `n` without a succeeded pod. -/
def missing (n : ℤ) (pods : List Pod) : Finset ℤ :=
  (indexesBelow n).filter fun i => i ∉ succeededIndexes pods

/-- How many of the counted indexes are not below `n`. -/
def excess (n : ℤ) (pods : List Pod) : ℕ := distinct ((succeededIndexes pods).filter (n ≤ ·))

lemma missing_eq_empty_iff :
    missing n pods = ∅ ↔ ∀ i, 0 ≤ i → i < n →
      ∃ p ∈ pods, getCompletionIndex p = i ∧ p.phase = .succeeded := by
  unfold missing
  rw [filter_eq_empty_iff]
  constructor
  · intro h i hi hin
    have hmem := not_not.1 (h (mem_indexesBelow.2 ⟨hi, hin⟩))
    exact (mem_succeededIndexes.1 hmem).2
  · intro h i hi
    rcases mem_indexesBelow.1 hi with ⟨hi, hin⟩
    refine not_not.2 (mem_succeededIndexes.2 ⟨?_, h i hi hin⟩)
    unfold unknownCompletionIndex
    omega

/-- The counted indexes below `n`. -/
def covered (n : ℤ) (pods : List Pod) : Finset ℤ :=
  (indexesBelow n).filter fun i => i ∈ succeededIndexes pods

lemma card_covered_add_missing (hn : 0 ≤ n) (pods : List Pod) :
    ((covered n pods).card : ℤ) + (missing n pods).card = n := by
  have hsplit := card_filter_add_card_filter_not (s := indexesBelow n)
    (fun i => i ∈ succeededIndexes pods)
  rw [card_indexesBelow] at hsplit
  unfold covered missing
  omega

lemma distinct_eq (hn : n ≤ maxIndex) (pods : List Pod) :
    distinct (succeededIndexes pods) = (covered n pods).card + excess n pods := by
  set l := succeededIndexes pods with hl
  have hcount : (l.filter (n ≤ ·)).count maxIndex = l.count maxIndex :=
    count_filter (by simpa using hn)
  have hunion : (l.filter (· ≠ maxIndex)).toFinset =
      covered n pods ∪ ((l.filter (n ≤ ·)).filter (· ≠ maxIndex)).toFinset := by
    ext i
    simp only [covered, mem_union, Finset.mem_filter, mem_indexesBelow, mem_toFinset,
      mem_filter, decide_eq_true_eq, ← hl]
    constructor
    · rintro ⟨hi, hmax⟩
      have hbounds := succeededIndexes_bounds hi
      rcases lt_or_ge i n with hlt | hge
      · exact Or.inl ⟨⟨hbounds.1, hlt⟩, hi⟩
      · exact Or.inr ⟨⟨hi, hge⟩, hmax⟩
    · rintro (⟨⟨-, hlt⟩, hi⟩ | ⟨⟨hi, -⟩, hmax⟩)
      · exact ⟨hi, by omega⟩
      · exact ⟨hi, hmax⟩
  have hdisjoint : Disjoint (covered n pods)
      ((l.filter (n ≤ ·)).filter (· ≠ maxIndex)).toFinset := by
    rw [Finset.disjoint_left]
    intro i hi hi'
    have hlt := (mem_indexesBelow.1 (Finset.mem_filter.1 hi).1).2
    have hge := of_mem_filter (mem_of_mem_filter (mem_toFinset.1 hi'))
    rw [decide_eq_true_eq] at hge
    omega
  unfold excess distinct
  rw [← hl, hunion, card_union_of_disjoint hdisjoint, hcount]
  omega

/-- No pod is both succeeded and active. -/
lemma length_succeeded_add_active (pods : List Pod) :
    (pods.filter fun p => p.phase = .succeeded).length + (filterActivePods pods).length ≤
      pods.length := by
  have hle : (filterActivePods pods).length ≤
      (pods.filter fun p => !decide (p.phase = .succeeded)).length := by
    refine (List.monotone_filter_right pods ?_).length_le
    intro p hactive
    rw [Bool.not_eq_true', decide_eq_false_iff_not]
    intro hphase
    unfold isPodActive at hactive
    rw [hphase] at hactive
    cases hactive
  have hsplit := length_eq_length_filter_add (l := pods) fun p => decide (p.phase = .succeeded)
  omega

lemma distinct_add_active_le (pods : List Pod) :
    distinct (succeededIndexes pods) + (filterActivePods pods).length ≤ pods.length := by
  have hle : distinct (succeededIndexes pods) ≤
      (pods.filter fun p => p.phase = .succeeded).length := by
    refine (distinct_le_length _).trans ((length_filter_le _ _).trans ?_)
    rw [length_map]
  have hsum := length_succeeded_add_active pods
  omega

/-- The job counts as complete if enough indexes that are not below `n` make up for the missing
ones. -/
lemma le_count_iff (hn : 0 ≤ n) (hlt : n < 2 ^ 31) (hlen : pods.length < 2 ^ 31) (env : Env) :
    n ≤ (calculateSucceededIndexes env pods).2 ↔ (missing n pods).card ≤ excess n pods := by
  have hsplit := card_covered_add_missing hn pods
  have heq := distinct_eq (show n ≤ maxIndex by unfold maxIndex; omega) pods
  have hle := distinct_add_active_le pods
  rw [calculateSucceededIndexes_count, int32_of_bounds (by omega)]
  omega

/-! ## Pending indexes -/

/-- The integers from `a` up to `b`. -/
def interval (a b : ℤ) : List ℤ := (List.range (b - a).toNat).map fun k : ℕ => a + k

lemma mem_interval : i ∈ interval a b ↔ a ≤ i ∧ i < b := Int.mem_range_iff

lemma interval_sorted (a b : ℤ) : (interval a b).Pairwise (· < ·) := by
  unfold interval
  rw [pairwise_map]
  refine pairwise_lt_range.imp ?_
  intro k m hlt
  omega

lemma interval_eq_nil (h : b ≤ a) : interval a b = [] := by
  unfold interval
  rw [show (b - a).toNat = 0 by omega]
  rfl

lemma interval_eq_cons (h : a < b) : interval a b = a :: interval (a + 1) b := by
  unfold interval
  rw [show (b - a).toNat = (b - (a + 1)).toNat + 1 by omega, range_succ_eq_map, List.map_cons,
    List.map_map]
  refine congrArg₂ _ (by simp) (map_congr_left ?_)
  intro k _
  show a + ((k + 1 : ℕ) : ℤ) = a + 1 + k
  omega

lemma appendCandidates_eq (bound : ℤ) (room : ℕ) (candidate : ℤ) (result : List ℤ) :
    appendCandidates bound room candidate result =
      result ++ (interval candidate bound).take room := by
  induction room generalizing candidate result with
  | zero =>
    rw [take_zero, append_nil]
    rfl
  | succ room ih =>
    unfold appendCandidates
    split_ifs with hlt
    · rw [ih, interval_eq_cons hlt, take_succ_cons, append_assoc]
      rfl
    · rw [interval_eq_nil (by omega), take_nil, append_nil]

/-- The indexes below `n` from `candidate` on that are not in a sorted list. -/
def pendingFrom (n : ℤ) : List ℤ → ℤ → List ℤ
  | [], candidate => interval candidate n
  | np :: rest, candidate => interval candidate (min np n) ++ pendingFrom n rest (np + 1)

lemma mem_pendingFrom (hsorted : nps.Pairwise (· < ·)) (hle : ∀ np ∈ nps, candidate ≤ np) :
    i ∈ pendingFrom n nps candidate ↔ candidate ≤ i ∧ i < n ∧ i ∉ nps := by
  induction nps generalizing candidate with
  | nil =>
    unfold pendingFrom
    rw [mem_interval]
    simp
  | cons np rest ih =>
    rcases pairwise_cons.1 hsorted with ⟨hfirst, hrest⟩
    have hnp := hle np mem_cons_self
    unfold pendingFrom
    rw [mem_append, mem_interval, ih hrest fun x hx => hfirst x hx, List.mem_cons]
    constructor
    · rintro (⟨hge, hlt⟩ | ⟨hge, hlt, hnot⟩)
      · refine ⟨hge, by omega, ?_⟩
        rintro (rfl | hmem)
        · omega
        · have hgt := hfirst i hmem
          omega
      · exact ⟨by omega, hlt, fun hmem => hmem.elim (by omega) hnot⟩
    · rintro ⟨hge, hlt, hnot⟩
      rcases not_or.1 hnot with ⟨hne, hnot⟩
      by_cases hbefore : i < np
      · exact Or.inl ⟨hge, by omega⟩
      · exact Or.inr ⟨by omega, hlt, hnot⟩

lemma pendingFrom_sorted (n : ℤ) (hsorted : nps.Pairwise (· < ·))
    (hle : ∀ np ∈ nps, candidate ≤ np) :
    (pendingFrom n nps candidate).Pairwise (· < ·) := by
  induction nps generalizing candidate with
  | nil => exact interval_sorted _ _
  | cons np rest ih =>
    rcases pairwise_cons.1 hsorted with ⟨hfirst, hrest⟩
    have hfirst' : ∀ x ∈ rest, np + 1 ≤ x := fun x hx => hfirst x hx
    unfold pendingFrom
    rw [pairwise_append]
    refine ⟨interval_sorted _ _, ih hrest hfirst', ?_⟩
    intro i hi j hj
    have hlt := (mem_interval.1 hi).2
    have hge := ((mem_pendingFrom hrest hfirst').1 hj).1
    omega

/-- The loop finds the first pending indexes, if there are enough of them. Were there not, it would
go on with negative ones after the largest index. -/
lemma pendingLoop_eq (hn : n ≤ maxIndex) {count : ℕ} {result : List ℤ}
    (hsorted : nps.Pairwise (· < ·)) (hbounds : ∀ np ∈ nps, 0 ≤ np ∧ np ≤ maxIndex)
    (hroom : result.length < count)
    (henough : count - result.length ≤ (pendingFrom n nps candidate).length) :
    pendingLoop count n nps candidate result =
      result ++ (pendingFrom n nps candidate).take (count - result.length) := by
  induction nps generalizing candidate result with
  | nil => exact appendCandidates_eq _ _ _ _
  | cons np rest ih =>
    unfold pendingLoop pendingFrom
    unfold pendingFrom at henough
    rw [appendCandidates_eq, take_append]
    rw [length_append] at henough
    rcases pairwise_cons.1 hsorted with ⟨hfirst, hrest⟩
    have hnp := hbounds np mem_cons_self
    by_cases hfull : count - result.length ≤ (interval candidate (min np n)).length
    · rw [if_pos (by rw [length_append, length_take]; omega),
        show count - result.length - (interval candidate (min np n)).length = 0 by omega,
        take_zero, append_nil]
    -- the whole interval is taken, and more is needed
    have htake : (interval candidate (min np n)).take (count - result.length) =
        interval candidate (min np n) := take_of_length_le (by omega)
    have hother : np ≠ maxIndex := by
      intro heq
      have hnil : rest = [] := eq_nil_iff_forall_not_mem.2 fun x hx => by
        have hgt := hfirst x hx
        have hle := (hbounds x (mem_cons_of_mem _ hx)).2
        omega
      have hnone : pendingFrom n rest (np + 1) = [] := by
        rw [hnil]
        exact interval_eq_nil (by omega)
      rw [hnone, length_nil] at henough
      omega
    have hnext : int64 (np + 1) = np + 1 := by
      unfold maxIndex at hnp hother
      exact int64_of_bounds (by omega) (by omega)
    rw [htake, if_neg (by rw [length_append]; omega), hnext,
      ih hrest (forall_mem_cons.1 hbounds).2
        (by rw [length_append]; omega) (by rw [length_append]; omega),
      append_assoc, length_append]
    congr 3
    omega

lemma mem_nonPending :
    i ∈ nonPending pods ↔ i ≠ unknownCompletionIndex ∧
      ∃ p ∈ pods, getCompletionIndex p = i ∧ (p.phase = .succeeded ∨ isPodActive p = true) := by
  unfold nonPending
  rw [mem_insertionSort, mem_dedup, mem_indexes]
  simp only [Bool.or_eq_true, decide_eq_true_eq]

lemma nonPending_sorted (pods : List Pod) : (nonPending pods).Pairwise (· < ·) := by
  have hle : (nonPending pods).Pairwise (· ≤ ·) := pairwise_insertionSort _ _
  have hne : (nonPending pods).Nodup :=
    (perm_insertionSort _ _).nodup_iff.2 (nodup_dedup _)
  exact (hle.and hne).imp fun h => lt_of_le_of_ne h.1 h.2

lemma nonPending_bounds (h : i ∈ nonPending pods) :
    0 ≤ i ∧ i ≤ maxIndex := by
  rcases mem_nonPending.1 h with ⟨hne, p, -, rfl, -⟩
  exact (getCompletionIndex_bounds p).resolve_left hne

/-- The indexes below `n` that no succeeded or active pod has. -/
def pending (n : ℤ) (pods : List Pod) : List ℤ := pendingFrom n (nonPending pods) 0

lemma mem_pending :
    i ∈ pending n pods ↔ 0 ≤ i ∧ i < n ∧ i ∉ nonPending pods :=
  mem_pendingFrom (nonPending_sorted pods) fun _ hnp => (nonPending_bounds hnp).1

lemma firstPendingIndexes_eq (hn : n ≤ maxIndex) {count : ℕ}
    (henough : count ≤ (pending n pods).length) :
    firstPendingIndexes pods count n = (pending n pods).take count := by
  unfold firstPendingIndexes
  split_ifs with hzero
  · rw [hzero, take_zero]
  · exact pendingLoop_eq hn (nonPending_sorted pods) (fun _ hnp => nonPending_bounds hnp)
      (show ([] : List ℤ).length < count from Nat.pos_of_ne_zero hzero) henough

/-! ## Removing active pods -/

section

variable (env : Env)

lemma length_dropLast_add_getLast {α : Type*} (l : List α) :
    l.dropLast.length + l.getLast?.toList.length = l.length := by
  rcases eq_nil_or_concat l with rfl | ⟨l, a, rfl⟩
  · rfl
  · simp

lemma appendPodsWithSameIndex_length (r : Removal) (pods : List Pod) (ix : ℤ) :
    (appendPodsWithSameIndex env r pods ix).rm.length +
        (appendPodsWithSameIndex env r pods ix).left.length =
      r.rm.length + r.left.length + pods.length := by
  unfold appendPodsWithSameIndex
  split
  · dsimp only
    rw [length_append]
    omega
  split
  · dsimp only
    rw [length_append]
    omega
  · have hlen := (env.sortActivePods_perm pods).length_eq
    have hsplit := length_dropLast_add_getLast (env.sortActivePods pods)
    rw [length_append, length_append]
    omega

lemma removalLoop_length (pods : List Pod) (lastIndex : ℤ) (group : List Pod) (r : Removal) :
    (removalLoop env pods lastIndex group r).rm.length +
        (removalLoop env pods lastIndex group r).left.length =
      r.rm.length + r.left.length + group.length + pods.length := by
  induction pods generalizing lastIndex group r with
  | nil => exact appendPodsWithSameIndex_length env r group lastIndex
  | cons p pods ih =>
    unfold removalLoop
    dsimp only
    split
    · rw [ih, appendPodsWithSameIndex_length, length_singleton, length_cons]
      omega
    · rw [ih, length_append, length_singleton, length_cons]
      omega

variable {r : Removal}

/-- Of the pods with one index, one is left. -/
lemma appendPodsWithSameIndex_left {ix : ℤ} (h : ∀ p ∈ pods, getCompletionIndex p = ix)
    (hix : ix ≠ unknownCompletionIndex) {p : Pod} (hp : p ∈ pods) :
    ∃ q ∈ (appendPodsWithSameIndex env r pods ix).left, getCompletionIndex q = ix := by
  unfold appendPodsWithSameIndex
  rw [if_neg hix]
  split
  · exact ⟨p, mem_append_right _ hp, h p hp⟩
  have hmem := (env.sortActivePods_perm pods).mem_iff.2 hp
  cases hlast : (env.sortActivePods pods).getLast? with
  | none =>
    rw [getLast?_eq_none_iff.1 hlast] at hmem
    cases hmem
  | some q =>
    refine ⟨q, mem_append_right _ (by rw [hlast]; exact List.mem_singleton_self q), ?_⟩
    exact h q ((env.sortActivePods_perm pods).mem_iff.1 (mem_of_getLast? hlast))

lemma appendPodsWithSameIndex_mono {ix : ℤ} {q : Pod} (hq : q ∈ r.left) :
    q ∈ (appendPodsWithSameIndex env r pods ix).left := by
  unfold appendPodsWithSameIndex
  split
  · exact hq
  · split
    · exact mem_append_left _ hq
    · exact mem_append_left _ hq

lemma removalLoop_mono {lastIndex : ℤ} {group : List Pod} {q : Pod} (hq : q ∈ r.left) :
    q ∈ (removalLoop env pods lastIndex group r).left := by
  induction pods generalizing lastIndex group r with
  | nil => exact appendPodsWithSameIndex_mono env hq
  | cons p pods ih =>
    unfold removalLoop
    dsimp only
    split
    · exact ih (appendPodsWithSameIndex_mono env hq)
    · exact ih hq

/-- Every index that a pod has is left. -/
lemma removalLoop_left {lastIndex : ℤ} {group : List Pod}
    (h : ∀ p ∈ group, getCompletionIndex p = lastIndex) {p : Pod} (hp : p ∈ group ++ pods)
    (hix : getCompletionIndex p ≠ unknownCompletionIndex) :
    ∃ q ∈ (removalLoop env pods lastIndex group r).left,
      getCompletionIndex q = getCompletionIndex p := by
  induction pods generalizing lastIndex group r with
  | nil =>
    rw [append_nil] at hp
    have hlast := h p hp
    rw [hlast] at hix ⊢
    exact appendPodsWithSameIndex_left env h hix hp
  | cons p' pods ih =>
    unfold removalLoop
    dsimp only
    split_ifs with hsame
    · rcases mem_append.1 hp with hp | hp
      · -- the group ends here
        have hlast := h p hp
        rw [hlast] at hix ⊢
        rcases appendPodsWithSameIndex_left env (r := r) h hix hp with ⟨q, hq, heq⟩
        exact ⟨q, removalLoop_mono env hq, heq⟩
      · refine ih ?_ hp
        intro x hx
        rw [List.mem_singleton.1 hx]
    · refine ih ?_ ?_
      · exact forall_mem_append.2 ⟨h, forall_mem_singleton.2 (not_not.1 hsame)⟩
      · rw [append_assoc]
        exact hp

def indexesOf (pods : List Pod) : Finset ℤ :=
  ((pods.map getCompletionIndex).filter (· ≠ unknownCompletionIndex)).toFinset

lemma mem_indexesOf : i ∈ indexesOf pods ↔
    i ≠ unknownCompletionIndex ∧ ∃ p ∈ pods, getCompletionIndex p = i := by
  unfold indexesOf
  rw [mem_toFinset, List.mem_filter, List.mem_map, decide_eq_true_eq]
  exact and_comm

lemma card_indexesOf_le_length (pods : List Pod) : (indexesOf pods).card ≤ pods.length := by
  refine (toFinset_card_le _).trans ((length_filter_le _ _).trans ?_)
  rw [length_map]

lemma card_indexesOf_le (pods : List Pod) :
    (indexesOf pods).card ≤ (appendDuplicatedIndexPodsForRemoval env pods).left.length := by
  have hsub : indexesOf pods ⊆
      ((appendDuplicatedIndexPodsForRemoval env pods).left.map getCompletionIndex).toFinset := by
    intro i hi
    rcases mem_indexesOf.1 hi with ⟨hne, p, hp, rfl⟩
    have hp' : p ∈ [] ++ env.sortByCompletionIndex pods :=
      (env.sortByCompletionIndex_perm pods).mem_iff.2 hp
    have hnil : ∀ x ∈ ([] : List Pod), getCompletionIndex x = unknownCompletionIndex :=
      fun x hx => absurd hx not_mem_nil
    rcases removalLoop_left env (r := ⟨[], []⟩) hnil hp' hne with ⟨q, hq, heq⟩
    exact mem_toFinset.2 (mem_map.2 ⟨q, hq, heq⟩)
  refine (card_le_card hsub).trans ((toFinset_card_le _).trans ?_)
  rw [length_map]

lemma removal_length (pods : List Pod) :
    (appendDuplicatedIndexPodsForRemoval env pods).rm.length +
      (appendDuplicatedIndexPodsForRemoval env pods).left.length = pods.length := by
  unfold appendDuplicatedIndexPodsForRemoval
  rw [removalLoop_length, (env.sortByCompletionIndex_perm pods).length_eq]
  simp

/-- How many active pods are left: those that are wanted at most, or one for each index. -/
lemma activePodsForRemoval_length {job : Job} (hjob : job.isIndexedJob = true) {rmAtLeast : ℕ}
    (hrm : rmAtLeast ≤ pods.length) :
    (activePodsForRemoval env job pods rmAtLeast).length = rmAtLeast ∨
      (activePodsForRemoval env job pods rmAtLeast).length + (indexesOf pods).card ≤
        pods.length := by
  have hlen := removal_length env pods
  have hcard := card_indexesOf_le env pods
  unfold activePodsForRemoval
  rw [if_pos hjob]
  dsimp only
  split
  · left
    rw [length_append, length_take, (env.sortActivePods_perm _).length_eq]
    omega
  · right
    omega

end

/-! ## Creating pods -/

/-- The pods that are created have indexes below `n` that no succeeded or active pod has, and no
two of them have the same. -/
structure Fresh (n : ℤ) (pods : List Pod) (created : List ℤ) : Prop where
  nodup : created.Nodup
  range : ∀ i ∈ created, 0 ≤ i ∧ i < n
  pending : ∀ i ∈ created, ∀ p ∈ pods, getCompletionIndex p = i →
    p.phase ≠ .succeeded ∧ isPodActive p = false

lemma fresh_of_sublist {created : List ℤ} (h : created.Sublist (pending n pods)) :
    Fresh n pods created := by
  have hsorted : (pending n pods).Pairwise (· < ·) :=
    pendingFrom_sorted n (nonPending_sorted pods) fun _ hnp => (nonPending_bounds hnp).1
  refine ⟨(hsorted.imp ne_of_lt).sublist h, ?_, ?_⟩
  · intro i hi
    have hmem := mem_pending.1 (h.subset hi)
    exact ⟨hmem.1, hmem.2.1⟩
  intro i hi p hp heq
  rcases mem_pending.1 (h.subset hi) with ⟨hnonneg, -, hnot⟩
  have hne : i ≠ unknownCompletionIndex := by
    unfold unknownCompletionIndex
    omega
  constructor
  · intro hphase
    exact hnot (mem_nonPending.2 ⟨hne, p, hp, heq, Or.inl hphase⟩)
  · rw [Bool.eq_false_iff]
    intro hactive
    exact hnot (mem_nonPending.2 ⟨hne, p, hp, heq, Or.inr hactive⟩)

/-- There is a pending index for every one that is neither covered by a succeeded pod nor by an
active one. -/
lemma le_pending_length (hn : 0 ≤ n) (pods : List Pod) :
    n ≤ (covered n pods).card + (indexesOf (filterActivePods pods)).card +
      (pending n pods).length := by
  have hsub : indexesBelow n ⊆
      covered n pods ∪ indexesOf (filterActivePods pods) ∪ (pending n pods).toFinset := by
    intro i hi
    rcases mem_indexesBelow.1 hi with ⟨hnonneg, hlt⟩
    rw [mem_union, mem_union]
    by_cases hnp : i ∈ nonPending pods
    · left
      rcases mem_nonPending.1 hnp with ⟨hne, p, hp, heq, hphase | hactive⟩
      · exact Or.inl (Finset.mem_filter.2
          ⟨hi, mem_succeededIndexes.2 ⟨hne, p, hp, heq, hphase⟩⟩)
      · exact Or.inr (mem_indexesOf.2 ⟨hne, p, mem_filter.2 ⟨hp, hactive⟩, heq⟩)
    · exact Or.inr (mem_toFinset.2 (mem_pending.2 ⟨hnonneg, hlt, hnp⟩))
  have hcard := card_le_card hsub
  have hunion := card_union_le (covered n pods ∪ indexesOf (filterActivePods pods))
    (pending n pods).toFinset
  have hunion' := card_union_le (covered n pods) (indexesOf (filterActivePods pods))
  have hlist := toFinset_card_le (pending n pods)
  rw [card_indexesBelow] at hcard
  omega

variable {env : Env} {job : Job}

/-- The batches take the indexes in order. -/
lemma createPods_isPrefix (fuel diff batchSize : ℕ) (indexes : List ℤ) (requests : ℕ) :
    (createPods env fuel diff batchSize (some indexes) requests).indexes <+: indexes := by
  induction fuel generalizing diff batchSize indexes requests with
  | zero => exact nil_prefix
  | succ fuel ih =>
    unfold createPods
    dsimp only
    split
    · exact nil_prefix
    split
    · exact take_prefix _ _
    have hlater := ih (diff - batchSize) (min (2 * batchSize) (diff - batchSize))
      (indexes.drop batchSize) (requests + batchSize)
    have happend := prefix_append_right_inj (indexes.take batchSize) |>.2 hlater
    rw [take_append_drop] at happend
    exact happend

lemma fillUp_created (hjob : job.isIndexedJob = true) (hn : job.completions = some n)
    {active succeeded : ℤ} {deleted : List Pod} (hactive : 0 ≤ active) (hsucceeded : 0 ≤ succeeded)
    (hsum : succeeded + active < 2 ^ 31)
    (henough : active < job.parallelism → n - succeeded - active ≤ (pending n pods).length) :
    (fillUp env job active succeeded pods deleted).created.Sublist (pending n pods) := by
  have hrange := job.completions_range n hn
  unfold fillUp
  by_cases hfew : active < job.parallelism
  · have hwant : wantActive job active succeeded = min (n - succeeded) job.parallelism := by
      unfold wantActive
      rw [hn]
      dsimp only
      rw [int32_of_bounds (by omega)]
    have hdiff : (int32 (wantActive job active succeeded - active)).toNat ≤
        (pending n pods).length := by
      rw [hwant, int32_of_bounds (by omega)]
      omega
    rw [if_pos hfew]
    dsimp only
    split
    · exact nil_sublist _
    rw [hn]
    dsimp only
    rw [firstPendingIndexes_eq (by unfold maxIndex; omega) hdiff]
    exact (createPods_isPrefix _ _ _ _ _).sublist.trans (take_sublist _ _)
  · rw [if_neg hfew]
    exact nil_sublist _

lemma deleteJobPods_removed (hlen : pods.length < 2 ^ 31)
    (h : (deleteJobPods env pods).2 = false) : (deleteJobPods env pods).1 = pods.length := by
  unfold deleteJobPods at h ⊢
  dsimp only at h ⊢
  have hnone := of_decide_eq_false h
  rw [int32_of_bounds (x := (pods.length : ℤ)) (by omega),
    int32_of_bounds (by omega)]
  omega

lemma manageJob_created (hjob : job.isIndexedJob = true) (hn : job.completions = some n)
    {succeeded : ℤ} (hsucceeded : 0 ≤ succeeded)
    (hsum : succeeded + (filterActivePods pods).length < 2 ^ 31)
    (hcovered : ((covered n pods).card : ℤ) ≤ succeeded) :
    (manageJob env job (filterActivePods pods) succeeded pods).created.Sublist
      (pending n pods) := by
  have hrange := job.completions_range n hn
  have hpar := job.parallelism_range
  have hcard := card_indexesOf_le_length (filterActivePods pods)
  have hpend := le_pending_length hrange.1 pods
  set activePods := filterActivePods pods with hactivePods
  have hint : int32 activePods.length = activePods.length :=
    int32_of_bounds (by omega)
  unfold manageJob
  dsimp only
  rw [hint]
  split
  · exact nil_sublist _
  have hrm : int32 (activePods.length - job.parallelism) = activePods.length - job.parallelism :=
    int32_of_bounds (by omega)
  rw [hrm]
  have hexcess : ((activePods.length : ℤ) - job.parallelism).toNat ≤ activePods.length := by omega
  have hleft := activePodsForRemoval_length env hjob hexcess
  set podsToDelete := activePodsForRemoval env job activePods
    ((activePods.length : ℤ) - job.parallelism).toNat with hdelete
  split
  · -- nothing to delete
    rename_i hnil
    rw [hnil, length_nil] at hleft
    exact fillUp_created hjob hn (by omega) hsucceeded hsum fun _ => by omega
  rename_i hsome
  split_ifs with hok
  · exact nil_sublist _
  have hlt : podsToDelete.length < 2 ^ 31 := by omega
  have hfits : int32 (activePods.length - podsToDelete.length) =
      activePods.length - podsToDelete.length := int32_of_bounds (by omega)
  rw [deleteJobPods_removed hlt (Bool.eq_false_iff.2 hok), hfits]
  exact fillUp_created hjob hn (by omega) hsucceeded (by omega) fun _ => by omega

/-! ## The sync -/

/-- The conditions say that the job is complete. -/
def SaysComplete (conditions : List Condition) : Prop :=
  ∃ c ∈ conditions, c.type = .complete ∧ c.status = .isTrue

/-- The sync writes a status that says that the job is complete. -/
def Outcome.MarksComplete (o : Outcome) : Prop := ∃ st ∈ o.update, SaysComplete st.conditions

lemma not_saysComplete {conditions : List Condition} (h : isJobFinished conditions = false) :
    ¬ SaysComplete conditions := by
  rintro ⟨c, hc, htype, hstatus⟩
  have hnone := any_eq_false.1 h c hc
  rw [htype, hstatus] at hnone
  exact hnone rfl

/-- Setting another condition completes nothing. -/
lemma ensureJobConditionStatus_saysComplete {c : Condition} (hc : c.type ≠ .complete)
    {conditions : List Condition}
    (h : SaysComplete (ensureJobConditionStatus c conditions).1) : SaysComplete conditions := by
  revert h
  unfold SaysComplete
  fun_induction ensureJobConditionStatus c conditions with
  | case1 _ =>
    rw [exists_mem_cons_iff]
    exact fun h => h.resolve_left fun h => hc h.1
  | case4 d rest _ _ =>
    rw [exists_mem_cons_iff, exists_mem_cons_iff]
    exact fun h => .inr (h.resolve_left fun h => hc h.1)
  | case5 d rest _ _ _ hrest ih =>
    rw [hrest] at ih
    rw [exists_mem_cons_iff, exists_mem_cons_iff]
    exact Or.imp_right ih
  | _ => exact id

section

variable {deleted : List Pod} {status : Status} {changed err : Bool} {created : List ℤ}

lemma writeStatus_created :
    (writeStatus env job pods status changed err deleted created).created = created := by
  fun_cases writeStatus <;> rfl

lemma writeStatus_update {st : Status}
    (h : st ∈ (writeStatus env job pods status changed err deleted created).update) :
    st = status := by
  revert h
  fun_cases writeStatus <;> intro h <;> cases h
  all_goals rfl

lemma writeStatus_changed :
    (writeStatus env job pods status true err deleted created).update = some status := by
  unfold writeStatus
  rw [if_pos (by tauto)]
  split
  · rfl
  · split <;> rfl

end

section

lemma suspendConditions_saysComplete {called : Bool}
    (h : SaysComplete (suspendConditions env job called).1) :
    SaysComplete job.status.conditions := by
  revert h
  fun_cases suspendConditions with
  | case3 _ => exact id
  | _ => exact ensureJobConditionStatus_saysComplete (by decide)

/-- The sync looks at the completions of the job. -/
structure ReachesCompletions (env : Env) (job : Job) (pods : List Pod) : Prop where
  unfinished : isJobFinished job.status.conditions = false
  enabled : env.indexedJobEnabled = true
  unfailed : failure env job pods = none

instance : Decidable (ReachesCompletions env job pods) :=
  decidable_of_iff (isJobFinished job.status.conditions = false ∧ env.indexedJobEnabled = true ∧
    failure env job pods = none) ⟨fun h => ⟨h.1, h.2.1, h.2.2⟩, fun h => ⟨h.1, h.2, h.3⟩⟩

variable (hjob : job.completionMode = some .indexed)

include hjob

lemma isIndexedJob_of : job.isIndexedJob = true := by
  unfold Job.isIndexedJob
  rw [hjob]
  rfl

omit hjob in
lemma failJob_spec (hunfinished : isJobFinished job.status.conditions = false)
    (reason message : String) :
    ¬ (failJob env job pods reason message).MarksComplete ∧
      (failJob env job pods reason message).created = [] := by
  refine ⟨?_, writeStatus_created⟩
  rintro ⟨st, hst, c, hc, htype, hstatus⟩
  rw [writeStatus_update hst] at hc
  rcases mem_append.1 hc with hc | hc
  · exact not_saysComplete hunfinished ⟨c, hc, htype, hstatus⟩
  · rw [List.mem_singleton.1 hc] at htype
    cases htype

lemma syncJob_eq : syncJob env job (some pods) =
    if isJobFinished job.status.conditions then ⟨true, false, none, [], []⟩
    else if env.indexedJobEnabled = false then ⟨false, false, none, [], []⟩
    else syncPods env job pods (failure env job pods) := by
  unfold syncJob
  rw [isIndexedJob_of hjob, hjob, if_neg (show some CompletionMode.indexed ≠ some .other by decide)]
  cases env.indexedJobEnabled with
  | false => rfl
  | true => rfl

/-- A sync that does not look at the completions neither completes the job nor creates pods. -/
lemma syncJob_of_not_reaches
    (h : ¬ ReachesCompletions env job pods) :
    ¬ (syncJob env job (some pods)).MarksComplete ∧ (syncJob env job (some pods)).created = [] := by
  have hnothing : ∀ forget, ¬ (⟨forget, false, none, [], []⟩ : Outcome).MarksComplete := by
    rintro forget ⟨st, hst, -⟩
    cases hst
  rw [syncJob_eq hjob]
  by_cases hfinished : isJobFinished job.status.conditions = true
  · rw [if_pos hfinished]
    exact ⟨hnothing true, rfl⟩
  rw [if_neg hfinished]
  by_cases henabled : env.indexedJobEnabled = false
  · rw [if_pos henabled]
    exact ⟨hnothing false, rfl⟩
  rw [if_neg henabled]
  cases hfailure : failure env job pods with
  | none =>
    exact absurd ⟨Bool.eq_false_iff.2 hfinished, Bool.eq_true_of_not_eq_false henabled, hfailure⟩ h
  | some r =>
    rcases r with ⟨reason, message⟩
    exact failJob_spec (Bool.eq_false_iff.2 hfinished) reason message

lemma syncJob_of_reaches
    (h : ReachesCompletions env job pods) :
    syncJob env job (some pods) = progressJob env job pods := by
  rcases h with ⟨hunfinished, henabled, hunfailed⟩
  rw [syncJob_eq hjob, hunfinished, henabled, hunfailed, if_neg (by decide), if_neg (by decide)]
  rfl

lemma countSucceeded_eq :
    countSucceeded env job pods = (calculateSucceededIndexes env pods).2 := by
  unfold countSucceeded
  rw [if_pos (isIndexedJob_of hjob)]

/-- A sync that looks at the completions completes the job if it counts enough indexes. -/
lemma progressJob_marksComplete
    (hn : job.completions = some n) (hunfinished : isJobFinished job.status.conditions = false) :
    (progressJob env job pods).MarksComplete ↔ n ≤ (calculateSucceededIndexes env pods).2 := by
  have hcomplete : isComplete job (managed env job pods).active (countSucceeded env job pods) =
      decide (n ≤ (calculateSucceededIndexes env pods).2) := by
    unfold isComplete
    rw [hn, countSucceeded_eq hjob]
  constructor
  · rintro ⟨st, hst, hsays⟩
    rw [writeStatus_update hst] at hsays
    unfold progressStatus at hsays
    rw [hcomplete] at hsays
    by_contra hfew
    rw [if_neg (by simpa using hfew)] at hsays
    exact not_saysComplete hunfinished (suspendConditions_saysComplete hsays)
  · intro hle
    have hdone : isComplete job (managed env job pods).active (countSucceeded env job pods) =
        true := by
      rw [hcomplete]
      exact decide_eq_true hle
    refine ⟨progressStatus env job pods, ?_, ⟨.complete, .isTrue, "", ""⟩, ?_, rfl, rfl⟩
    · unfold progressJob
      rw [hdone, Bool.true_or]
      exact writeStatus_changed
    · unfold progressStatus
      rw [if_pos hdone]
      exact mem_append_right _ (List.mem_singleton_self _)

theorem progressJob_created
    (hn : job.completions = some n) (hlen : pods.length < 2 ^ 31) :
    (progressJob env job pods).created.Sublist (pending n pods) := by
  have hrange := job.completions_range n hn
  have hsum := distinct_add_active_le pods
  have heq := distinct_eq (show n ≤ maxIndex by unfold maxIndex; omega) pods
  unfold progressJob
  rw [writeStatus_created]
  unfold managed
  rw [countSucceeded_eq hjob, calculateSucceededIndexes_count, int32_of_bounds (by omega)]
  split
  · exact manageJob_created (isIndexedJob_of hjob) hn (by omega) (by omega) (by omega)
  · exact nil_sublist _

end

/-- The condition under which a sync completes an Indexed job rightly: it does not look at the
completions, or no index is missing, or there are fewer indexes that are not below `n` than are
missing. -/
def CompletesRightly (env : Env) (job : Job) (n : ℤ) (pods : List Pod) : Prop :=
  ReachesCompletions env job pods →
    missing n pods = ∅ ∨ excess n pods < (missing n pods).card

/-- A sync of an Indexed job completes it only if every index has a succeeded pod, and creates only
pods with fresh indexes, exactly if `CompletesRightly` holds before it. -/
theorem indexed_job_complete_iff (env : Env) (job : Job) (hjob : job.completionMode = some .indexed)
    {n : ℤ} (hn : job.completions = some n) (pods : List Pod) (hlen : pods.length < 2 ^ 31) :
    (((syncJob env job (some pods)).MarksComplete → ∀ i, 0 ≤ i → i < n →
        ∃ p ∈ pods, getCompletionIndex p = i ∧ p.phase = .succeeded) ∧
      Fresh n pods (syncJob env job (some pods)).created) ↔ CompletesRightly env job n pods := by
  have hrange := job.completions_range n hn
  unfold CompletesRightly
  rw [← missing_eq_empty_iff]
  by_cases h : ReachesCompletions env job pods
  · rw [syncJob_of_reaches hjob h, progressJob_marksComplete hjob hn h.unfinished,
      le_count_iff hrange.1 hrange.2 hlen]
    have hfresh : Fresh n pods (progressJob env job pods).created :=
      fresh_of_sublist (progressJob_created hjob hn hlen)
    constructor
    · rintro ⟨himp, -⟩ -
      by_cases hle : (missing n pods).card ≤ excess n pods
      · exact Or.inl (himp hle)
      · exact Or.inr (by omega)
    · intro hcond
      refine ⟨fun hle => ?_, hfresh⟩
      rcases hcond h with hnone | hlt
      · exact hnone
      · omega
  · rcases syncJob_of_not_reaches hjob h with ⟨hnot, hcreate⟩
    rw [hcreate]
    exact ⟨fun _ hreach => absurd hreach h,
      fun _ => ⟨fun hmarks => absurd hmarks hnot, fresh_of_sublist (nil_sublist _)⟩⟩

/-- A job with one completion, of which nothing is known yet. -/
def oneCompletion : Job where
  completionMode := some .indexed
  completions := some 1
  parallelism := 1
  backoffLimit := 6
  activeDeadlineSeconds := none
  suspend := none
  restartPolicy := .never
  deletionTimestamp := none
  status := ⟨0, 0, 0, none, none, [], []⟩
  completions_range := by
    intro n hn
    cases hn
    decide
  parallelism_range := by decide

def calmEnv : Env where
  indexedJobEnabled := true
  suspendJobEnabled := true
  clock := fun _ => 0
  jobNeedsSync := true
  sortByCompletionIndex := fun pods =>
    pods.insertionSort fun p q => getCompletionIndex p ≤ getCompletionIndex q
  sortByCompletionIndex_perm := perm_insertionSort _
  sortByCompletionIndex_sorted := by
    refine @pairwise_insertionSort _ _ _ ⟨?_⟩ ⟨?_⟩
    · intro p q
      exact le_total _ _
    · intro p q r
      exact le_trans
  sortActivePods := id
  sortActivePods_perm := List.Perm.refl
  deletePod := fun _ => .deleted
  createPod := fun _ => .created
  updateFails := false

/-- A succeeded pod with the index 7. -/
def foreignPod : Pod := ⟨"foreign", some ['7'], .succeeded, none, [], []⟩

/-- The job has one completion, and is completed by a pod with the index 7. -/
theorem completed_by_foreign_index :
    (syncJob calmEnv oneCompletion (some [foreignPod])).MarksComplete ∧
      ¬ ∃ p ∈ [foreignPod], getCompletionIndex p = 0 ∧ p.phase = .succeeded := by
  have hreaches : ReachesCompletions calmEnv oneCompletion [foreignPod] := by decide +kernel
  refine ⟨?_, by decide +kernel⟩
  rw [syncJob_of_reaches rfl hreaches, progressJob_marksComplete rfl rfl hreaches.unfinished]
  decide +kernel

/-- Beside a pod for the only index, the pod with the index 7 does no harm. -/
theorem indexed_job_complete_iff_foreign :
    let right := fun pods : List Pod =>
      ((syncJob calmEnv oneCompletion (some pods)).MarksComplete → ∀ i, 0 ≤ i → i < 1 →
        ∃ p ∈ pods, getCompletionIndex p = i ∧ p.phase = .succeeded) ∧
      Fresh 1 pods (syncJob calmEnv oneCompletion (some pods)).created
    right [⟨"own", some ['0'], .succeeded, none, [], []⟩, foreignPod] ∧ ¬ right [foreignPod] := by
  intro right
  have hiff (pods : List Pod) (hlen : pods.length < 2 ^ 31) :=
    indexed_job_complete_iff calmEnv oneCompletion rfl
      (show oneCompletion.completions = some 1 from rfl) pods hlen
  constructor
  · exact (hiff _ (by decide)).2 fun _ => Or.inl (by decide +kernel)
  · intro hright
    exact absurd ((hiff _ (by decide)).1 hright (by decide +kernel)) (by decide +kernel)

end Kubernetes.Controllers.JobController
