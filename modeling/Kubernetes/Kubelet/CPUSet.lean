import Kubernetes.Decimal
import Mathlib.Order.Lattice.Nat

/-! # Sets of CPUs and their text

A model of `cm/cpuset`. A set of CPUs is a finite set of numbers; `String` writes it in the
Linux list format and `Parse` reads it. The results are the round trip `parse_string`, and for
which texts `Parse` does what the format says, `parse_exact_iff`.
-/

namespace Kubernetes.Kubelet

open Decimal List

abbrev CPUSet := Finset Nat

namespace CPUSet

/-- `ToSlice`: the elements in increasing order. -/
def toSlice (s : CPUSet) : List Nat := (List.range (s.sup id + 1)).filter (· ∈ s)

/-- The ranges of an increasing list, of which the first one begins with `start` and reaches
`last` so far. -/
def extend (start last : Nat) : List Nat → List (Nat × Nat)
  | [] => [(start, last)]
  | e :: elems =>
    if e = last + 1 then extend start e elems else (start, last) :: extend e e elems

def ranges : List Nat → List (Nat × Nat)
  | [] => []
  | e :: elems => extend e e elems

def rangeText (r : Nat × Nat) : List Char :=
  if r.1 = r.2 then itoa r.1 else itoa r.1 ++ '-' :: itoa r.2

/-- `String`: every range is followed by a comma, and the last comma is trimmed. -/
def string (s : CPUSet) : List Char :=
  ((ranges s.toSlice).flatMap fun r => rangeText r ++ [',']).rdropWhile (· = ',')

/-- The body of the loop of `Parse`. A part with more than two boundaries is skipped. -/
def parseRange (b : CPUSet) (r : List Char) : Option CPUSet :=
  match r.splitOn '-' with
  | [elem] => do
    let elem ← atoi elem
    return insert elem.toNat b
  | [start, last] => do
    let start ← atoi start
    let last ← atoi last
    return b ∪ Finset.Icc start.toNat last.toNat
  | _ => some b

variable (s : List Char)

def parse : Option CPUSet :=
  if s = [] then some ∅ else (s.splitOn ',').foldlM parseRange ∅

/-! ## Slices -/

@[simp]
lemma mem_toSlice {s : CPUSet} {c : Nat} : c ∈ s.toSlice ↔ c ∈ s := by
  unfold toSlice
  rw [List.mem_filter, List.mem_range, decide_eq_true_eq, and_iff_right_iff_imp]
  intro hc
  exact Nat.lt_succ_of_le (Finset.le_sup (f := id) hc)

lemma toSlice_pairwise (s : CPUSet) : s.toSlice.Pairwise (· < ·) :=
  pairwise_lt_range.filter _

/-! ## Ranges -/

lemma exists_mem_extend {start last : Nat} {elems : List Nat} (hle : start ≤ last)
    (hlast : ∀ e ∈ elems, last < e) (hsorted : elems.Pairwise (· < ·)) {c : Nat} :
    (∃ r ∈ extend start last elems, r.1 ≤ c ∧ c ≤ r.2) ↔ (start ≤ c ∧ c ≤ last) ∨ c ∈ elems := by
  induction elems generalizing start last with
  | nil => simp [extend]
  | cons e elems ih =>
    rw [List.pairwise_cons] at hsorted
    have he : last < e := hlast e List.mem_cons_self
    unfold extend
    split_ifs with hadj
    · rw [ih (by omega) hsorted.1 hsorted.2, List.mem_cons]
      constructor
      · rintro (h | h)
        · by_cases hc : c = e
          · exact .inr (.inl hc)
          · exact .inl (by omega)
        · exact .inr (.inr h)
      · rintro (h | rfl | h)
        · exact .inl (by omega)
        · exact .inl (by omega)
        · exact .inr h
    · rw [exists_mem_cons_iff, ih (le_refl e) hsorted.1 hsorted.2, List.mem_cons]
      refine or_congr_right (or_congr_left ?_)
      omega

lemma exists_mem_ranges {l : List Nat} (hsorted : l.Pairwise (· < ·)) {c : Nat} :
    (∃ r ∈ ranges l, r.1 ≤ c ∧ c ≤ r.2) ↔ c ∈ l := by
  cases l with
  | nil => simp [ranges]
  | cons e elems =>
    rw [List.pairwise_cons] at hsorted
    unfold ranges
    rw [exists_mem_extend (le_refl e) hsorted.1 hsorted.2, List.mem_cons]
    refine or_congr_left ?_
    omega

lemma ends_mem_extend {start last : Nat} {elems : List Nat} {r : Nat × Nat}
    (hr : r ∈ extend start last elems) :
    (r.1 = start ∨ r.1 ∈ elems) ∧ (r.2 = last ∨ r.2 ∈ elems) := by
  induction elems generalizing start last with
  | nil =>
    rw [extend, List.mem_singleton] at hr
    subst hr
    exact ⟨.inl rfl, .inl rfl⟩
  | cons e elems ih =>
    unfold extend at hr
    simp only [List.mem_cons]
    split at hr
    · rcases ih hr with ⟨h1, h2⟩
      exact ⟨h1.imp_right .inr, .inr h2⟩
    rcases List.mem_cons.1 hr with rfl | hr
    · exact ⟨.inl rfl, .inl rfl⟩
    · rcases ih hr with ⟨h1, h2⟩
      exact ⟨.inr h1, .inr h2⟩

lemma ends_mem_ranges {l : List Nat} {r : Nat × Nat} (hr : r ∈ ranges l) : r.1 ∈ l ∧ r.2 ∈ l := by
  cases l with
  | nil => cases hr
  | cons e elems =>
    simp only [List.mem_cons]
    exact ends_mem_extend hr

/-! ## Texts -/

lemma not_mem_itoa {c : Char} (hc : c.isDigit = false) (n : Nat) : c ∉ itoa n := by
  intro h
  rw [allDigits_itoa n c h] at hc
  cases hc

lemma comma_not_mem_rangeText (r : Nat × Nat) : ',' ∉ rangeText r := by
  have hdigits := not_mem_itoa (c := ',') rfl
  unfold rangeText
  split
  · exact hdigits _
  · rw [mem_append, List.mem_cons, not_or, not_or]
    exact ⟨hdigits _, by decide, hdigits _⟩

lemma rangeText_ne_nil (r : Nat × Nat) : rangeText r ≠ [] := by
  unfold rangeText
  split
  · exact itoa_ne_nil _
  · exact append_ne_nil_of_left_ne_nil (itoa_ne_nil _) _

lemma intercalate_concat (parts : List (List Char)) (p : List Char) :
    [','].intercalate (parts ++ [p]) = parts.flatMap (· ++ [',']) ++ p := by
  induction parts with
  | nil => simp [intercalate_singleton]
  | cons q parts ih =>
    rw [flatMap_cons, append_assoc, ← ih]
    cases parts with
    | nil => simp [intercalate_cons_cons, intercalate_singleton]
    | cons r parts => simp [intercalate_cons_cons]

/-- Parts that each end in a comma, with the last comma trimmed, are parts with commas
between them. -/
lemma rdropWhile_commas {parts : List (List Char)} (h : ∀ p ∈ parts, ',' ∉ p ∧ p ≠ [])
    (hne : parts ≠ []) :
    (parts.flatMap (· ++ [','])).rdropWhile (· = ',') = [','].intercalate parts := by
  obtain ⟨init, p, rfl⟩ := (eq_nil_or_concat' parts).resolve_left hne
  obtain ⟨hp, hpne⟩ := h p (mem_append_right _ (List.mem_singleton_self p))
  rw [flatMap_append, flatMap_singleton, ← append_assoc, intercalate_concat,
    rdropWhile_concat_pos _ _ _ (by decide), rdropWhile_eq_self_iff]
  intro hnil
  rw [getLast_append_of_right_ne_nil _ _ hpne, decide_eq_true_eq]
  intro heq
  exact hp (heq ▸ getLast_mem hpne)

lemma parseRange_rangeText (b : CPUSet) {r : Nat × Nat} (h1 : r.1 < 2 ^ 63) (h2 : r.2 < 2 ^ 63) :
    parseRange b (rangeText r) = some (b ∪ Finset.Icc r.1 r.2) := by
  have hdash := not_mem_itoa (c := '-') rfl
  unfold rangeText
  split_ifs with heq
  · have hsplit : (itoa r.1).splitOn '-' = [itoa r.1] := by
      have hall : ∀ l ∈ [itoa r.1], '-' ∉ l := by simpa using hdash r.1
      simpa using splitOn_intercalate '-' hall (by simp)
    unfold parseRange
    rw [hsplit]
    simp only [atoi_itoa h1, Option.bind_eq_bind, Option.bind_some, pure, Int.toNat_natCast, ← heq,
      Finset.Icc_self]
    rw [Finset.insert_eq, Finset.union_comm]
  · have hsplit : (itoa r.1 ++ '-' :: itoa r.2).splitOn '-' = [itoa r.1, itoa r.2] := by
      have hall : ∀ l ∈ [itoa r.1, itoa r.2], '-' ∉ l := by simpa using ⟨hdash r.1, hdash r.2⟩
      simpa [intercalate_cons_cons] using splitOn_intercalate '-' hall (by simp)
    unfold parseRange
    rw [hsplit]
    simp only [atoi_itoa h1, atoi_itoa h2, Option.bind_eq_bind, Option.bind_some, pure,
      Int.toNat_natCast]

lemma foldlM_parseRange (rs : List (Nat × Nat)) (h : ∀ r ∈ rs, r.1 < 2 ^ 63 ∧ r.2 < 2 ^ 63)
    (b : CPUSet) :
    ∃ b', (rs.map rangeText).foldlM parseRange b = some b' ∧
      ∀ c, c ∈ b' ↔ c ∈ b ∨ ∃ r ∈ rs, r.1 ≤ c ∧ c ≤ r.2 := by
  induction rs generalizing b with
  | nil => exact ⟨b, rfl, by simp⟩
  | cons r rs ih =>
    obtain ⟨hr1, hr2⟩ := h r List.mem_cons_self
    obtain ⟨b', hb', hmem⟩ :=
      ih (List.forall_mem_cons.1 h).2 (b ∪ Finset.Icc r.1 r.2)
    refine ⟨b', ?_, fun c => ?_⟩
    · rw [List.map_cons, foldlM_cons, parseRange_rangeText b hr1 hr2]
      exact hb'
    · rw [hmem, Finset.mem_union, Finset.mem_Icc, exists_mem_cons_iff, or_assoc]

theorem parse_string {s : CPUSet} (h : ∀ c ∈ s, c < 2 ^ 63) : parse s.string = some s := by
  by_cases hs : ranges s.toSlice = []
  · -- without ranges there are no elements
    have hempty : s = ∅ := by
      refine Finset.eq_empty_of_forall_notMem fun c hc => ?_
      obtain ⟨r, hr, -⟩ := (exists_mem_ranges s.toSlice_pairwise).2 (mem_toSlice.2 hc)
      rw [hs] at hr
      cases hr
    unfold string
    rw [hs, hempty]
    rfl
  set parts := (ranges s.toSlice).map rangeText
  have hparts : ∀ p ∈ parts, ',' ∉ p ∧ p ≠ [] := by
    intro p hp
    obtain ⟨r, -, rfl⟩ := List.mem_map.1 hp
    exact ⟨comma_not_mem_rangeText r, rangeText_ne_nil r⟩
  have hne : parts ≠ [] := by simpa [parts] using hs
  have htext : s.string = [','].intercalate parts := by
    rw [← rdropWhile_commas hparts hne, string, flatMap_map]
  have hsplit : s.string.splitOn ',' = parts := by
    rw [htext]
    exact splitOn_intercalate ',' (fun p hp => (hparts p hp).1) hne
  have hstring : s.string ≠ [] := by
    intro hnil
    rw [hnil, splitOn_nil] at hsplit
    have hmem : [] ∈ parts := hsplit ▸ List.mem_singleton_self []
    exact (hparts _ hmem).2 rfl
  have hbound : ∀ r ∈ ranges s.toSlice, r.1 < 2 ^ 63 ∧ r.2 < 2 ^ 63 := by
    intro r hr
    obtain ⟨h1, h2⟩ := ends_mem_ranges hr
    exact ⟨h _ (mem_toSlice.1 h1), h _ (mem_toSlice.1 h2)⟩
  obtain ⟨b, hb, hmem⟩ := foldlM_parseRange (ranges s.toSlice) hbound ∅
  unfold parse
  rw [if_neg hstring, hsplit, hb]
  congr 1
  ext c
  rw [hmem, exists_mem_ranges s.toSlice_pairwise, mem_toSlice]
  simp

example : string {0, 1, 2, 5, 7, 8} = "0-2,5,7-8".toList := by decide +kernel

/-! ## The list format

`Parse` adds the numbers of a range with `for e := start; e <= end; e++`. After the largest Go int
the counter goes on with the smallest one, and the loop over a range up to it is never left. -/

/-- The loop over the numbers from `e` to `last` is left. -/
inductive Leaves (last : Int) : Int → Prop
  | done {e : Int} : last < e → Leaves last e
  | next {e : Int} : e ≤ last → Leaves last ((e + 1).bmod (2 ^ 64)) → Leaves last e

variable (r : List Char)

/-- An item for which `Parse` returns an error: a boundary is no Go int. -/
def Refused : Prop := (r.splitOn '-').length ≤ 2 ∧ ∃ boundary ∈ r.splitOn '-', atoi boundary = none

/-- An item with a loop that is not left. -/
def RunsOn : Prop :=
  ∃ start last e l, r.splitOn '-' = [start, last] ∧ atoi start = some e ∧ atoi last = some l ∧
    ¬Leaves l e

/-- The items are read to their end, or to an error. -/
def Ends : List (List Char) → Prop
  | [] => True
  | r :: rs => ¬RunsOn r ∧ (Refused r ∨ Ends rs)

/-- `Parse` returns a set, or an error. -/
def Returns (out : Option CPUSet) : Prop :=
  parse s = out ∧ (s = [] ∨ Ends (s.splitOn ','))

lemma leaves_iff {last e : Int} (hlast : last < 2 ^ 63) (he : -2 ^ 63 ≤ e ∧ e < 2 ^ 63) :
    Leaves last e ↔ last ≠ 2 ^ 63 - 1 := by
  constructor
  · intro h
    -- the counter stays a Go int, and none is above the largest one
    induction h with
    | done hlt => omega
    | next _ _ ih => exact ih ⟨Int.le_bmod (by decide), Int.bmod_lt (by decide)⟩
  · intro hne
    -- by induction on the number of passes
    obtain ⟨n, hn⟩ : ∃ n, (last + 1 - e).toNat = n := ⟨_, rfl⟩
    induction n generalizing e with
    | zero => exact .done (by omega)
    | succ n ih =>
      refine .next (by omega) ?_
      rw [Int.bmod_eq_of_le (by omega) (by omega)]
      exact ih ⟨by omega, by omega⟩ (by omega)

lemma atoi_range {s : List Char} {n : Int} (h : atoi s = some n) : -2 ^ 63 ≤ n ∧ n < 2 ^ 63 := by
  simpa using (Option.filter_eq_some_iff.1 h).2

lemma runsOn_iff : RunsOn r ↔ ∃ start last e,
    r.splitOn '-' = [start, last] ∧ atoi start = some e ∧ atoi last = some (2 ^ 63 - 1) := by
  constructor
  · rintro ⟨start, last, e, l, hr, he, hl, hruns⟩
    rw [leaves_iff (atoi_range hl).2 (atoi_range he), not_not] at hruns
    exact ⟨start, last, e, hr, he, hruns ▸ hl⟩
  · rintro ⟨start, last, e, hr, he, hl⟩
    refine ⟨start, last, e, _, hr, he, hl, ?_⟩
    rw [leaves_iff (by decide) (atoi_range he)]
    simp

lemma parseRange_eq_none {r : List Char} {b : CPUSet} : parseRange b r = none ↔ Refused r := by
  unfold Refused parseRange
  split
  · rename_i elem helem
    cases he : atoi elem <;> simp [helem, he]
  · rename_i start last hboth
    cases hs : atoi start <;> cases hl : atoi last <;> simp [hboth, hs, hl]
  · -- an item with more boundaries is skipped
    rename_i hone htwo
    simp only [reduceCtorEq, false_iff]
    rintro ⟨hlength, -⟩
    rcases hr : r.splitOn '-' with _ | ⟨x, _ | ⟨y, _ | ⟨z, rest⟩⟩⟩
    · exact absurd hr (splitOn_ne_nil _ _)
    · exact hone x hr
    · exact htwo x y hr
    · simp [hr] at hlength

lemma ends_iff {rs : List (List Char)} (h : ∀ r ∈ rs, ¬Refused r) :
    Ends rs ↔ ∀ r ∈ rs, ¬RunsOn r := by
  induction rs with
  | nil => simp [Ends]
  | cons r rs ih =>
    rw [forall_mem_cons] at h ⊢
    rw [Ends, ih h.2, or_iff_right h.1]

def Numeral : Prop := s ≠ [] ∧ AllDigits s

/-- A number, or a range that does not descend. -/
def InFormat : Prop :=
  match r.splitOn '-' with
  | [n] => Numeral n
  | [a, b] => Numeral a ∧ Numeral b ∧ ofDigits a ≤ ofDigits b
  | _ => False

def denoted : CPUSet :=
  match r.splitOn '-' with
  | [n] => {ofDigits n}
  | [a, b] => Finset.Icc (ofDigits a) (ofDigits b)
  | _ => ∅

def ListFormat : Prop := s = [] ∨ ∀ r ∈ s.splitOn ',', InFormat r

/-- `Parse` reads a text in the format as the numbers it denotes, and refuses any other. -/
def ParsedExactly : Prop :=
  (ListFormat s → ∃ b, Returns s (some b) ∧
    ∀ c, c ∈ b ↔ s ≠ [] ∧ ∃ r ∈ s.splitOn ',', c ∈ denoted r) ∧
  (¬ListFormat s → Returns s none)

lemma atoi_numeral {s : List Char} {n : Int} (hs : Numeral s) (h : atoi s = some n) :
    n.toNat = ofDigits s := by
  have hparse := parseInt_text .none hs.1 hs.2
  obtain ⟨hn, -⟩ := Option.filter_eq_some_iff.1 h
  rw [show Sign.none.text ++ s = s from rfl, hn] at hparse
  rw [Option.some.inj hparse]
  rfl

lemma parseRange_inFormat {r : List Char} (h : InFormat r) (hread : ¬Refused r) (b : CPUSet) :
    parseRange b r = some (b ∪ denoted r) := by
  obtain ⟨b', hb'⟩ := Option.ne_none_iff_exists'.1 (mt (parseRange_eq_none (b := b)).1 hread)
  unfold InFormat at h
  unfold parseRange at hb' ⊢
  unfold denoted
  split at h
  · rename_i n hr
    rw [hr] at hb'
    obtain ⟨e, he, -⟩ := Option.bind_eq_some_iff.1 hb'
    simp [he, atoi_numeral h he]
  · rename_i first last hr
    rw [hr] at hb'
    obtain ⟨e, he, hrest⟩ := Option.bind_eq_some_iff.1 hb'
    obtain ⟨l, hl, -⟩ := Option.bind_eq_some_iff.1 hrest
    simp [he, hl, atoi_numeral h.1 he, atoi_numeral h.2.1 hl]
  · cases h

lemma foldlM_inFormat {rs : List (List Char)} (h : ∀ r ∈ rs, InFormat r ∧ ¬Refused r)
    (b : CPUSet) :
    ∃ b', rs.foldlM parseRange b = some b' ∧ ∀ c, c ∈ b' ↔ c ∈ b ∨ ∃ r ∈ rs, c ∈ denoted r := by
  induction rs generalizing b with
  | nil => exact ⟨b, rfl, by simp⟩
  | cons r rs ih =>
    rw [forall_mem_cons] at h
    obtain ⟨b', hb', hmem⟩ := ih h.2 (b ∪ denoted r)
    refine ⟨b', ?_, fun c => ?_⟩
    · rw [foldlM_cons, parseRange_inFormat h.1.1 h.1.2]
      exact hb'
    · rw [hmem, Finset.mem_union, exists_mem_cons_iff, or_assoc]

lemma foldlM_eq_none {rs : List (List Char)} {b : CPUSet} :
    rs.foldlM parseRange b = none ↔ ∃ r ∈ rs, Refused r := by
  induction rs generalizing b with
  | nil => simp
  | cons r rs ih =>
    rw [foldlM_cons, exists_mem_cons_iff, ← parseRange_eq_none (b := b)]
    cases hr : parseRange b r with
    | none => simp
    | some b' => simpa using ih

/-- A text in the format is read if its numbers are Go ints and no range runs on. Another one is
refused if some item is, and none runs on before. -/
theorem parse_exact_iff (s : List Char) :
    (ParsedExactly s ↔ s = [] ∨
      (ListFormat s ∧ ∀ r ∈ s.splitOn ',', ¬Refused r ∧ ¬RunsOn r) ∨
      (¬ListFormat s ∧ (∃ r ∈ s.splitOn ',', Refused r) ∧ Ends (s.splitOn ','))) ∧
    ∀ r, RunsOn r ↔ ∃ start last e,
      r.splitOn '-' = [start, last] ∧ atoi start = some e ∧ atoi last = some (2 ^ 63 - 1) := by
  refine ⟨?_, runsOn_iff⟩
  unfold ParsedExactly Returns
  by_cases hs : s = []
  · simp [hs, ListFormat, parse]
  simp only [hs, parse, if_false, false_or, ne_eq, not_false_eq_true, true_and, foldlM_eq_none]
  by_cases hformat : ListFormat s
  · simp only [hformat, not_true, false_imp_iff, true_imp_iff, true_and, false_and, or_false,
      and_true]
    constructor
    · rintro ⟨b, ⟨hb, hends⟩, -⟩
      have hread : ∀ r ∈ s.splitOn ',', ¬Refused r := fun r hr hrefused => by
        rw [foldlM_eq_none.2 ⟨r, hr, hrefused⟩] at hb
        cases hb
      exact fun r hr => ⟨hread r hr, (ends_iff hread).1 hends r hr⟩
    · intro hall
      -- no item is refused, so that all are read and add what they denote
      have hread : ∀ r ∈ s.splitOn ',', ¬Refused r := fun r hr => (hall r hr).1
      obtain ⟨b, hb, hmem⟩ :=
        foldlM_inFormat (fun r hr => ⟨hformat.resolve_left hs r hr, hread r hr⟩) ∅
      exact ⟨b, ⟨hb, (ends_iff hread).2 fun r hr => (hall r hr).2⟩, by simpa using hmem⟩
  · simp [hformat]

/-- An item with two dashes is dropped. -/
theorem parse_drops_item : parse "1-2-3".toList = some ∅ ∧ ¬ParsedExactly "1-2-3".toList := by
  refine ⟨by decide, fun h => ?_⟩
  have hformat : ¬ListFormat "1-2-3".toList := by
    rw [ListFormat, show "1-2-3".toList.splitOn ',' = ["1-2-3".toList] by decide]
    simp [InFormat, show ['1', '-', '2', '-', '3'].splitOn '-' = [['1'], ['2'], ['3']] by decide]
  exact absurd (h.2 hformat).1 (by decide)

end CPUSet

end Kubernetes.Kubelet
