import Kubernetes.Resource.Quantity

/-! # The serialization format of quantities

The documented grammar, as a structure: a `Literal` is a signed decimal number with a
suffix; it has a text and denotes a number. The suffixes are those of the documentation and
`n` and `u`, which the parser and its tests have as well. An exponent is an integer.

Results:

1. `Literal.scans`: the scanner finds the parts of every literal in its text;
2. `interpret_denotes`: the suffix is interpreted by its factor, the exponent as an `int32`;
3. `Literal.number_unique`: a text denotes one number.
-/

namespace Kubernetes.Resource

open Decimal List

/-! ## Grammar -/

/-- What a suffix multiplies by. -/
inductive Factor where
  | ten (e : Int)
  | two (k : Nat)
deriving DecidableEq

def Factor.toRat : Factor → ℚ
  | .ten e => 10 ^ e
  | .two k => 2 ^ k

/-- `binarySI` and `decimalSI` -/
def unitSuffixes : List (String × Factor) :=
  [("Ki", .two 10), ("Mi", .two 20), ("Gi", .two 30), ("Ti", .two 40), ("Pi", .two 50),
    ("Ei", .two 60), ("n", .ten (-9)), ("u", .ten (-6)), ("m", .ten (-3)), ("", .ten 0),
    ("k", .ten 3), ("M", .ten 6), ("G", .ten 9), ("T", .ten 12), ("P", .ten 15), ("E", .ten 18)]

inductive SuffixDenotes : List Char → Factor → Prop
  | unit {s : String} {f : Factor} : (s, f) ∈ unitSuffixes → SuffixDenotes s.toList f
  | decimalExponent {c : Char} {sign : Sign} {ds : List Char} : c = 'e' ∨ c = 'E' → ds ≠ [] →
      AllDigits ds → SuffixDenotes (c :: (sign.text ++ ds)) (.ten (sign.apply (ofDigits ds : Int)))

/-- A quantity as the grammar has it. -/
structure Literal where
  sign : Sign
  whole : List Char
  point : Bool
  frac : List Char
  suffix : List Char
  factor : Factor
  whole_digits : AllDigits whole
  frac_digits : AllDigits frac
  frac_point : point = false → frac = []
  some_digit : whole ++ frac ≠ []
  denotes : SuffixDenotes suffix factor

namespace Literal

/-- The point and the digits after it. -/
def fracText (l : Literal) : List Char := if l.point then '.' :: l.frac else []

def text (l : Literal) : List Char := l.sign.text ++ (l.whole ++ (l.fracText ++ l.suffix))

/-- The number that the literal denotes. -/
def number (l : Literal) : ℚ :=
  l.sign.apply (ofDigits (l.whole ++ l.frac) / 10 ^ l.frac.length * l.factor.toRat)

end Literal

/-! ## Suffixes -/

variable {c : Char}

/-- The letters of the suffixes are no other characters of a number. -/
lemma suffixChar_ne (h : suffixChar c = true) :
    c.isDigit = false ∧ c ≠ '+' ∧ c ≠ '-' ∧ c ≠ '.' := by
  simp only [suffixChar, decide_eq_true_eq] at h
  -- evaluated along the list of the letters, not over every character
  have hall : "eEinumkKMGTP".toList.all
      (fun c => !c.isDigit && c != '+' && c != '-' && c != '.') = true := by decide
  simpa [and_assoc] using all_eq_true.1 hall c h

variable {f : Factor}

lemma unit_letters {t : String} (hmem : (t, f) ∈ unitSuffixes) :
    ∀ c ∈ t.toList, suffixChar c = true := by
  have hall : unitSuffixes.all (fun p => p.1.toList.all suffixChar) = true := by decide
  exact all_eq_true.1 (all_eq_true.1 hall _ hmem)

lemma suffixChar_text {sign : Sign} {ds : List Char} (hds : AllDigits ds) :
    ∀ c ∈ (sign.text ++ ds).head?, suffixChar c = false := by
  intro c hc
  rw [← Bool.not_eq_true]
  intro hletter
  obtain ⟨hdigit, hplus, hminus, -⟩ := suffixChar_ne hletter
  cases sign with
  | none =>
    have hc' : c.isDigit = true := hds c (mem_of_mem_head? hc)
    rw [hdigit] at hc'
    cases hc'
  | plus => exact hplus (Option.some.inj hc).symm
  | minus => exact hminus (Option.some.inj hc).symm

variable {s : List Char}

/-- A suffix consists of letters, a sign and digits, and starts with a letter. -/
lemma SuffixDenotes.cases_text (h : SuffixDenotes s f) :
    ∃ letters sign ds, s = letters ++ (Sign.text sign ++ ds) ∧ AllDigits ds ∧
      (∀ c ∈ letters, suffixChar c = true) ∧ (letters = [] → s = []) := by
  cases h with
  | @unit s f hmem =>
    exact ⟨s.toList, .none, [], by simp [Sign.text], allDigits_nil, unit_letters hmem, id⟩
  | @decimalExponent c sign ds hc hne hds =>
    refine ⟨[c], sign, ds, rfl, hds, ?_, by simp⟩
    intro d hd
    rw [mem_singleton] at hd
    subst hd
    rcases hc with rfl | rfl <;> rfl

lemma SuffixDenotes.scanSuffix (h : SuffixDenotes s f) :
    scanSuffix s = true := by
  obtain ⟨letters, sign, ds, rfl, hds, hletters, -⟩ := h.cases_text
  unfold Resource.scanSuffix
  dsimp only
  rw [dropWhile_append_stop hletters (suffixChar_text hds),
    splitSign_text sign (unsigned_of_allDigits hds)]
  rw [decide_eq_true_eq, dropWhile_eq_nil_iff]
  exact hds

lemma SuffixDenotes.head (h : SuffixDenotes s f) :
    ∀ c ∈ s.head?, suffixChar c = true := by
  intro c hc
  obtain ⟨letters, sign, ds, heq, -, hletters, hnil⟩ := h.cases_text
  cases letters with
  | nil =>
    rw [hnil rfl] at hc
    cases hc
  | cons a letters =>
    rw [heq] at hc
    cases hc
    exact hletters _ mem_cons_self

/-! ## The scanner -/

namespace Literal

variable (l : Literal)

/-- What follows the digits before the point does not go on with a digit or a sign. -/
lemma tail_head :
    ∀ c ∈ (l.fracText ++ l.suffix).head?, c.isDigit = false ∧ c ≠ '+' ∧ c ≠ '-' := by
  intro c hc
  unfold fracText at hc
  split at hc
  · cases hc
    decide
  · obtain ⟨hdigit, hplus, hminus, -⟩ := suffixChar_ne (l.denotes.head c hc)
    exact ⟨hdigit, hplus, hminus⟩

lemma unsigned : Unsigned (l.whole ++ (l.fracText ++ l.suffix)) := by
  cases hw : l.whole with
  | nil => exact fun c hc => (l.tail_head c hc).2
  | cons a whole =>
    rw [← hw]
    have hhead := unsigned_of_allDigits l.whole_digits
    rw [hw] at hhead ⊢
    exact hhead

lemma splitSign_literal :
    splitSign l.text = (l.sign, l.whole ++ (l.fracText ++ l.suffix)) :=
  splitSign_text l.sign l.unsigned

/-- What the scanner finds. The text of the number has its leading zeros, unless there is
nothing else. -/
structure Scans (l : Literal) (parts : Scanned) : Prop where
  positive : parts.positive = decide (l.sign ≠ .minus)
  num_digits : AllDigits parts.num
  num_ne_nil : parts.num ≠ []
  num : ofDigits parts.num = ofDigits l.whole
  denom : parts.denom = l.frac
  suffix : parts.suffix = l.suffix
  value : parts.value = l.sign.text ++ (l.whole ++ l.fracText) ∨
    (parts.value = ['0'] ∧ ofDigits l.whole = 0 ∧ l.frac = [])

/-- The leading zeros of the digits before the point, and the other ones. -/
lemma ofDigits_strip (s : List Char) : ofDigits (s.dropWhile (· = '0')) = ofDigits s := by
  conv_rhs => rw [← takeWhile_append_dropWhile (p := (· = '0')) (l := s)]
  refine (ofDigits_zeros_append (fun c hc => ?_) _).symm
  simpa using mem_takeWhile_imp hc

lemma allDigits_strip (h : AllDigits s) : AllDigits (s.dropWhile (· = '0')) :=
  fun c hc => h c ((dropWhile_suffix _).subset hc)

lemma digits_zero : AllDigits ['0'] := by decide

lemma tail_eq_nil (h : l.fracText ++ l.suffix = []) : l.frac = [] ∧ l.suffix = [] := by
  obtain ⟨hfrac, hsuffix⟩ := append_eq_nil_iff.1 h
  refine ⟨l.frac_point ?_, hsuffix⟩
  by_contra hp
  rw [Bool.not_eq_false] at hp
  rw [fracText, hp, if_pos rfl] at hfrac
  cases hfrac

lemma dropWhile_zeros :
    (l.whole ++ (l.fracText ++ l.suffix)).dropWhile (· = '0') =
      l.whole.dropWhile (· = '0') ++ (l.fracText ++ l.suffix) := by
  have htail : (l.fracText ++ l.suffix).dropWhile (· = '0') = l.fracText ++ l.suffix := by
    refine dropWhile_append_stop (s := []) (by simp) fun c hc => ?_
    have hdigit := (l.tail_head c hc).1
    refine decide_eq_false ?_
    rintro rfl
    cases hdigit
  rw [dropWhile_append, htail]
  split_ifs with hempty
  · rw [List.isEmpty_iff.1 hempty]
    rfl
  · rfl

lemma scanDenom_literal : scanDenom (l.fracText ++ l.suffix) = (l.frac, l.suffix) := by
  have hstop : ∀ c ∈ l.suffix.head?, c.isDigit = false :=
    fun c hc => (suffixChar_ne (l.denotes.head c hc)).1
  cases hp : l.point with
  | true =>
    rw [fracText, hp, if_pos rfl]
    exact Prod.ext (takeWhile_append_stop l.frac_digits hstop)
      (dropWhile_append_stop l.frac_digits hstop)
  | false =>
    rw [fracText, hp, if_neg Bool.false_ne_true, nil_append, l.frac_point hp]
    unfold scanDenom
    split
    · rename_i heq
      have hletter := l.denotes.head '.' (by rw [heq]; rfl)
      exact absurd rfl (suffixChar_ne hletter).2.2.2
    · rfl

lemma text_eq :
    l.text = (l.sign.text ++ (l.whole ++ l.fracText)) ++ l.suffix := by
  simp [text]

lemma take_text :
    l.text.take (l.text.length - l.suffix.length) = l.sign.text ++ (l.whole ++ l.fracText) := by
  rw [text_eq, length_append, Nat.add_sub_cancel]
  exact take_left

/-- The scanner finds the parts of every literal in its text. -/
theorem scans : ∃ parts, parseQuantityString l.text = .ok parts ∧ l.Scans parts := by
  have hstrip := l.dropWhile_zeros
  have hdigits := allDigits_strip l.whole_digits
  have hstop : ∀ c ∈ (l.fracText ++ l.suffix).head?, c.isDigit = false :=
    fun c hc => (l.tail_head c hc).1
  have hnum := ofDigits_strip l.whole
  obtain ⟨num, hnumeq⟩ : ∃ num, l.whole.dropWhile (· = '0') = num := ⟨_, rfl⟩
  rw [hnumeq] at hstrip hdigits hnum
  unfold parseQuantityString
  rw [l.splitSign_literal]
  dsimp only
  rw [hstrip, takeWhile_append_stop hdigits hstop, dropWhile_append_stop hdigits hstop,
    scanDenom_literal]
  -- the scanner returns early where the string ends
  split
  · rename_i hnil
    obtain ⟨rfl, htail⟩ := append_eq_nil_iff.1 hnil
    obtain ⟨hfrac, hsuffix⟩ := l.tail_eq_nil htail
    have hzero : ofDigits l.whole = 0 := hnum.symm
    exact ⟨_, rfl, ⟨rfl, digits_zero, by simp, hzero.symm, hfrac.symm, hsuffix.symm,
      .inr ⟨rfl, hzero, hfrac⟩⟩⟩
  rename_i hne
  have hwhole : l.suffix = [] → l.text = l.sign.text ++ (l.whole ++ l.fracText) := by
    intro hsuffix
    rw [text_eq, hsuffix, append_nil]
  split
  · rename_i htail
    obtain ⟨hfrac, hsuffix⟩ := l.tail_eq_nil htail
    rw [htail, append_nil] at hne
    exact ⟨_, rfl, ⟨rfl, hdigits, hne, hnum, hfrac.symm, hsuffix.symm, .inl (hwhole hsuffix)⟩⟩
  -- no digit but zeros before the point makes a zero
  obtain ⟨num', hnum'⟩ : ∃ num', (if num.length = 0 then ['0'] else num) = num' := ⟨_, rfl⟩
  have hzeros : AllDigits num' ∧ num' ≠ [] ∧ ofDigits num' = ofDigits l.whole := by
    rw [← hnum']
    split_ifs with hlen
    · rw [length_eq_zero_iff.1 hlen] at hnum
      exact ⟨digits_zero, by simp, hnum⟩
    · exact ⟨hdigits, fun hnil => hlen (by rw [hnil]; rfl), hnum⟩
  obtain ⟨hdigits', hne', hval⟩ := hzeros
  rw [hnum']
  split
  · rename_i hsuffix
    exact ⟨_, rfl, ⟨rfl, hdigits', hne', hval, rfl, hsuffix.symm, .inl (hwhole hsuffix)⟩⟩
  · rw [if_pos l.denotes.scanSuffix]
    exact ⟨_, rfl, ⟨rfl, hdigits', hne', hval, rfl, rfl, .inl l.take_text⟩⟩

end Literal

/-! ## Interpreting the suffix -/

lemma lookup_listSuffixer {pairs : List (String × BEPair)} {pair : BEPair}
    (h : (listSuffixer pairs).lookup s = some pair) : ∃ t, (t, pair) ∈ pairs ∧ s = t.toList := by
  unfold listSuffixer at h
  induction pairs using reverseRecOn with
  | nil => cases h
  | append_singleton pairs p ih =>
    rw [foldl_append, foldl_cons, foldl_nil, GoMap.lookup_insert_if] at h
    split_ifs at h with hs
    · cases h
      exact ⟨p.1, by simp, hs⟩
    · obtain ⟨t, hmem, hs⟩ := ih h
      exact ⟨t, mem_append_left _ hmem, hs⟩

/-- No suffix of a table without digits has one. -/
lemma lookup_listSuffixer_of_digit {pairs : List (String × BEPair)}
    (hpairs : pairs.all (fun p => p.1.toList.all (!Char.isDigit ·)) = true) (hc : c ∈ s)
    (hdigit : c.isDigit = true) : (listSuffixer pairs).lookup s = none := by
  refine Option.eq_none_iff_forall_ne_some.2 fun pair h => ?_
  obtain ⟨t, hmem, rfl⟩ := lookup_listSuffixer h
  have hno := all_eq_true.1 (all_eq_true.1 hpairs _ hmem) c hc
  rw [hdigit] at hno
  cases hno

/-- A suffix with a digit can only be an exponent. -/
lemma interpret_of_digit (hc : c = 'e' ∨ c = 'E') {d : Char} (hd : d ∈ s)
    (hdigit : d.isDigit = true) :
    interpret (c :: s) =
      (atoi s).map fun parsed => (⟨10, int32 parsed⟩, .decimalExponent) := by
  have hmem : d ∈ c :: s := mem_cons_of_mem _ hd
  have hdec : decSuffixes.lookup (c :: s) = none :=
    lookup_listSuffixer_of_digit (by decide) hmem hdigit
  have hbin : binSuffixes.lookup (c :: s) = none :=
    lookup_listSuffixer_of_digit (by decide) hmem hdigit
  have hlen : (c :: s).length > 1 := by
    have hpos := length_pos_of_mem hd
    rw [length_cons]
    omega
  have hfast : interpret (c :: s) = suffixHandlerInterpret (c :: s) := by
    rcases hc with rfl | rfl <;> rfl
  rw [hfast, suffixHandlerInterpret, hdec, hbin]
  exact if_pos ⟨hlen, hc.symm⟩

/-- How a factor is represented by a base and an exponent. -/
def Factor.Represents : Factor → BEPair → Format → Prop
  | .ten e, pair, format => pair = ⟨10, int32 e⟩ ∧ format ≠ .binarySI
  | .two k, pair, format => pair = ⟨2, k⟩ ∧ format = .binarySI ∧ k ≤ 60

instance (f : Factor) (pair : BEPair) (format : Format) : Decidable (f.Represents pair format) := by
  cases f <;> unfold Factor.Represents <;> infer_instance

/-- A suffix is interpreted by its factor, or refused. -/
theorem interpret_denotes (h : SuffixDenotes s f) {pair : BEPair} {format : Format}
    (hi : interpret s = some (pair, format)) : f.Represents pair format := by
  cases h with
  | @unit s f hmem =>
    have htable : ∀ p ∈ unitSuffixes, ∀ res ∈ interpret p.1.toList,
        p.2.Represents res.1 res.2 := by decide +kernel
    exact htable _ hmem _ hi
  | @decimalExponent c sign ds hc hne hds =>
    obtain ⟨d, hd⟩ := exists_mem_of_ne_nil ds hne
    rw [interpret_of_digit hc (mem_append_right _ hd) (hds d hd), atoi,
      parseInt_text sign hne hds] at hi
    obtain ⟨n, hn, heq⟩ := Option.map_eq_some_iff.1 hi
    obtain ⟨hsome, -⟩ := Option.filter_eq_some_iff.1 hn
    cases hsome
    cases heq
    exact ⟨rfl, by simp⟩

/-! ## Uniqueness -/

lemma SuffixDenotes.inv (h : SuffixDenotes s f) :
    (∃ t, (t, f) ∈ unitSuffixes ∧ s = t.toList) ∨
      ∃ c sign ds, s = c :: (Sign.text sign ++ ds) ∧ ds ≠ [] ∧ AllDigits ds ∧
        f = .ten (sign.apply (ofDigits ds : Int)) := by
  cases h with
  | unit hmem => exact .inl ⟨_, hmem, rfl⟩
  | decimalExponent hc hne hds => exact .inr ⟨_, _, _, rfl, hne, hds, rfl⟩

/-- No suffix of a unit is an exponent. -/
lemma unit_ne_exponent {t : String} (hmem : (t, f) ∈ unitSuffixes) {sign : Sign} {ds : List Char}
    (hne : ds ≠ []) (hds : AllDigits ds) :
    t.toList ≠ c :: (sign.text ++ ds) := by
  intro heq
  obtain ⟨d, hd⟩ := exists_mem_of_ne_nil ds hne
  have hmem' : d ∈ t.toList := heq ▸ mem_cons_of_mem _ (mem_append_right _ hd)
  have hno := (suffixChar_ne (unit_letters hmem d hmem')).1
  rw [hds d hd] at hno
  cases hno

lemma SuffixDenotes.unique {f' : Factor} (h : SuffixDenotes s f) (h' : SuffixDenotes s f') :
    f = f' := by
  rcases h.inv with ⟨t, hmem, rfl⟩ | ⟨c, sign, ds, rfl, hne, hds, rfl⟩
  · rcases h'.inv with ⟨t', hmem', heq⟩ | ⟨c', sign', ds', heq, hne', hds', -⟩
    · have htable : ∀ p ∈ unitSuffixes, ∀ p' ∈ unitSuffixes,
          p.1.toList = p'.1.toList → p.2 = p'.2 := by decide +kernel
      exact htable _ hmem _ hmem' heq
    · exact absurd heq (unit_ne_exponent hmem hne' hds')
  · rcases h'.inv with ⟨t', hmem', heq⟩ | ⟨c', sign', ds', heq, -, hds', rfl⟩
    · exact absurd heq.symm (unit_ne_exponent hmem' hne hds)
    have hsplit := congrArg splitSign (List.cons.inj heq).2
    rw [splitSign_text sign (unsigned_of_allDigits hds),
      splitSign_text sign' (unsigned_of_allDigits hds')] at hsplit
    obtain ⟨rfl, rfl⟩ := Prod.mk.inj hsplit
    rfl

lemma Literal.parts_unique {l l' : Literal} (h : l.text = l'.text) :
    l.sign = l'.sign ∧ l.frac = l'.frac ∧ l.factor = l'.factor ∧
      ofDigits (l.whole ++ l.frac) = ofDigits (l'.whole ++ l'.frac) := by
  have hsign := l.splitSign_literal
  rw [h, l'.splitSign_literal] at hsign
  obtain ⟨parts, hparts, hl⟩ := l.scans
  obtain ⟨parts', hparts', hl'⟩ := l'.scans
  rw [h, hparts'] at hparts
  cases hparts
  have hfrac : l.frac = l'.frac := hl.denom.symm.trans hl'.denom
  have hsuffix : l.suffix = l'.suffix := hl.suffix.symm.trans hl'.suffix
  refine ⟨(Prod.mk.inj hsign).1.symm, hfrac, l.denotes.unique (hsuffix ▸ l'.denotes), ?_⟩
  rw [ofDigits_append, ofDigits_append, ← hl.num, ← hl'.num, hfrac]

theorem Literal.number_unique {l l' : Literal} (h : l.text = l'.text) : l.number = l'.number := by
  obtain ⟨hsign, hfrac, hfactor, hdigits⟩ := parts_unique h
  rw [Literal.number, Literal.number, hdigits, hfrac, hfactor, hsign]

end Kubernetes.Resource
