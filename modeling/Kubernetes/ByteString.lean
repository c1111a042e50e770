import Kubernetes.Core

/-! # Strings of bytes

Byte strings in lexicographic order, as keys of a sorted store: the string right after another one
(`lt_iff_snoc_le`), and the strings that start with a given one as a range (`isPrefix_iff_range`).

Byte strings as UTF-8 texts: `toValidUtf8` replaces what is not part of a text, as encoders of text
formats do; it leaves valid texts alone (`toValidUtf8_of_valid`).

Byte strings as paths with slashes: `clean` resolves dots and double slashes, and a path is clean
exactly if all its components are proper (`clean_eq_iff`).
-/

namespace Kubernetes.ByteString

open List

abbrev Byte := Fin 256

instance Byte.neZero : NeZero 256 := ⟨by decide⟩

abbrev Bytes := List Byte

/-! ## Order -/

variable {b : Byte} {k s rest a c p : Bytes}

lemma cons_le_cons_iff {a : Byte} {l : Bytes} :
    a :: k ≤ b :: l ↔ a < b ∨ a = b ∧ k ≤ l := by
  rw [le_iff_lt_or_eq, le_iff_lt_or_eq, cons_lt_cons_iff, List.cons.injEq]
  constructor
  · rintro ((hlt | ⟨heq, hlt⟩) | ⟨heq, hkl⟩)
    · exact Or.inl hlt
    · exact Or.inr ⟨heq, Or.inl hlt⟩
    · exact Or.inr ⟨heq, Or.inr hkl⟩
  · rintro (hlt | ⟨heq, hlt | hkl⟩)
    · exact Or.inl (Or.inl hlt)
    · exact Or.inl (Or.inr ⟨heq, hlt⟩)
    · exact Or.inr ⟨heq, hkl⟩

lemma nil_le (k : Bytes) : [] ≤ k := not_lt.1 (not_lt_nil k)

lemma not_cons_le_nil (a : Byte) (k : Bytes) : ¬ a :: k ≤ [] :=
  not_le.2 (nil_lt_cons a k)

/-- Nothing lies between a string and the string with a zero byte after it. -/
theorem lt_iff_snoc_le {k' : Bytes} : k < k' ↔ k ++ [0] ≤ k' := by
  induction k generalizing k' with
  | nil =>
    cases k' with
    | nil => simp
    | cons b k' =>
      rw [nil_append, cons_le_cons_iff]
      constructor
      · intro _
        rcases (Fin.zero_le b).lt_or_eq with hlt | heq
        · exact Or.inl hlt
        · exact Or.inr ⟨heq, nil_le _⟩
      · intro _
        exact nil_lt_cons b k'
  | cons a k ih =>
    cases k' with
    | nil =>
      constructor
      · intro h
        exact absurd h (not_lt_nil _)
      · intro h
        exact absurd h (not_cons_le_nil _ _)
    | cons b k' =>
      rw [cons_append, cons_lt_cons_iff, cons_le_cons_iff, ih]

/-- The first string after all those that start with `key`, as `clientv3.GetPrefixRangeEnd`: the
last byte that can be is increased. If there is none, the zero byte stands for the end of all
keys. -/
def prefixEnd (key : Bytes) : Bytes :=
  match key.reverse.dropWhile (· = 255) with
  | [] => [0]
  | b :: rest => (rest.reverse) ++ [b + 1]

lemma prefixEnd_snoc {key : Bytes} (hb : b ≠ 255) :
    prefixEnd (key ++ [b]) = key ++ [b + 1] := by
  unfold prefixEnd
  rw [reverse_append, reverse_singleton, singleton_append,
    dropWhile_cons_of_neg (by simpa using hb)]
  dsimp only
  rw [reverse_reverse]

/-- The strings that start with a string. -/
theorem isPrefix_iff_range {key : Bytes} (hb : b ≠ 255) :
    key ++ [b] <+: k ↔ key ++ [b] ≤ k ∧ k < prefixEnd (key ++ [b]) := by
  rw [prefixEnd_snoc hb]
  have hsucc : (b + 1).val = b.val + 1 := Fin.val_add_one_of_lt (Fin.lt_last_iff_ne_last.2 hb)
  induction key generalizing k with
  | nil =>
    rw [nil_append, nil_append]
    cases k with
    | nil => simp
    | cons c k =>
      rw [cons_prefix_cons, cons_le_cons_iff, cons_lt_cons_iff]
      constructor
      · rintro ⟨rfl, -⟩
        exact ⟨Or.inr ⟨rfl, nil_le _⟩, Or.inl (Fin.lt_def.2 (by omega))⟩
      rintro ⟨hle | ⟨rfl, -⟩, hlt | ⟨-, hlt⟩⟩
      · rw [Fin.lt_def] at hle hlt
        omega
      · exact absurd hlt (not_lt_nil _)
      · exact ⟨rfl, nil_prefix⟩
      · exact absurd hlt (not_lt_nil _)
  | cons a key ih =>
    cases k with
    | nil => simp
    | cons c k =>
      rw [cons_append, cons_append, cons_prefix_cons, cons_le_cons_iff, cons_lt_cons_iff]
      constructor
      · rintro ⟨rfl, hpre⟩
        rcases ih.1 hpre with ⟨hle, hlt⟩
        exact ⟨Or.inr ⟨rfl, hle⟩, Or.inr ⟨rfl, hlt⟩⟩
      · rintro ⟨hac | ⟨rfl, hle⟩, hca | ⟨hcb, hlt⟩⟩
        · exact absurd hac (lt_asymm hca)
        · exact absurd hcb (ne_of_gt hac)
        · exact absurd hca (lt_irrefl _)
        · exact ⟨rfl, ih.2 ⟨hle, hlt⟩⟩

/-! ## UTF-8 -/

/-- The length of a rune that starts with a byte, and the bounds of its second byte, as in the tables
of `unicode/utf8`; 0 if no rune starts with it. -/
def first (b : Byte) : ℕ × Byte × Byte :=
  if b < 0x80 then (1, 0x80, 0xBF)
  else if b < 0xC2 then (0, 0x80, 0xBF)
  else if b < 0xE0 then (2, 0x80, 0xBF)
  else if b = 0xE0 then (3, 0xA0, 0xBF)
  else if b = 0xED then (3, 0x80, 0x9F)
  else if b < 0xF0 then (3, 0x80, 0xBF)
  else if b = 0xF0 then (4, 0x90, 0xBF)
  else if b < 0xF4 then (4, 0x80, 0xBF)
  else if b = 0xF4 then (4, 0x80, 0x8F)
  else (0, 0x80, 0xBF)

/-- The bytes after the first one of a rune of more than one byte. -/
def runeTail (size : ℕ) (lo hi : Byte) : Bytes → Bool
  | [] => false
  | b :: rest =>
    lo ≤ b ∧ b ≤ hi ∧ size - 2 ≤ rest.length ∧ ∀ c ∈ rest.take (size - 2), 0x80 ≤ c ∧ c ≤ 0xBF

/-- The length of the rune at the start of a string, 0 if there is none. -/
def runeLen : Bytes → ℕ
  | [] => 0
  | b :: rest =>
    if (first b).1 ≤ 1 then (first b).1
    else if runeTail (first b).1 (first b).2.1 (first b).2.2 rest then (first b).1
    else 0

/-- The text, the first `skip` bytes of which are the rest of a rune, with U+FFFD for every byte
that does not belong to a rune. -/
def toValidUtf8From : ℕ → Bytes → Bytes
  | _, [] => []
  | skip + 1, b :: rest => b :: toValidUtf8From skip rest
  | 0, b :: rest =>
    match runeLen (b :: rest) with
    | 0 => [0xEF, 0xBF, 0xBD] ++ toValidUtf8From 0 rest
    | n + 1 => b :: toValidUtf8From n rest

def toValidUtf8 (s : Bytes) : Bytes := toValidUtf8From 0 s

def validUtf8From : ℕ → Bytes → Bool
  | skip, [] => skip = 0
  | skip + 1, _ :: rest => validUtf8From skip rest
  | 0, b :: rest =>
    match runeLen (b :: rest) with
    | 0 => false
    | n + 1 => validUtf8From n rest

/-- `utf8.Valid`. -/
def validUtf8 (s : Bytes) : Bool := validUtf8From 0 s

variable {skip : ℕ}

lemma toValidUtf8From_of_valid (h : validUtf8From skip s = true) :
    toValidUtf8From skip s = s := by
  induction s generalizing skip with
  | nil => cases skip <;> rfl
  | cons b rest ih =>
    cases skip with
    | succ skip =>
      rw [toValidUtf8From, ih h]
    | zero =>
      rw [validUtf8From] at h
      rw [toValidUtf8From]
      split at h
      · cases h
      · rename_i n hn
        rw [ih h]

theorem toValidUtf8_of_valid (h : validUtf8 s = true) : toValidUtf8 s = s :=
  toValidUtf8From_of_valid h

lemma runeLen_ascii (h : b < 0x80) (rest : Bytes) : runeLen (b :: rest) = 1 := by
  have hfirst : (first b).1 = 1 := by
    unfold first
    rw [if_pos h]
  rw [runeLen, if_pos (by rw [hfirst]), hfirst]

lemma le_first (b : Byte) : 0x80 ≤ (first b).2.1 := by
  unfold first
  split_ifs <;> decide

lemma runeTail_spec {size : ℕ} {lo hi : Byte} (h : runeTail size lo hi rest = true)
    (hsize : 1 < size) (hlo : 0x80 ≤ lo) :
    size - 1 ≤ rest.length ∧ ∀ c ∈ rest.take (size - 1), 0x80 ≤ c := by
  cases rest with
  | nil => cases h
  | cons b rest =>
    rw [runeTail, decide_eq_true_eq] at h
    rcases h with ⟨hb, -, hlen, hall⟩
    have hsucc : size - 1 = size - 2 + 1 := by omega
    rw [hsucc, length_cons, take_succ_cons]
    refine ⟨by omega, ?_⟩
    intro c hc
    rcases mem_cons.1 hc with rfl | hc
    · exact hlo.trans hb
    · exact (hall c hc).1

lemma runeTail_append {size : ℕ} {lo hi : Byte} (h : runeTail size lo hi rest = true)
    (more : Bytes) :
    runeTail size lo hi (rest ++ more) = true := by
  cases rest with
  | nil => cases h
  | cons b rest =>
    rw [runeTail, decide_eq_true_eq] at h
    rcases h with ⟨hlo, hhi, hlen, hall⟩
    rw [cons_append, runeTail, decide_eq_true_eq, take_append_of_le_length hlen, length_append]
    exact ⟨hlo, hhi, by omega, hall⟩

lemma runeLen_tail {n : ℕ} (h : runeLen (b :: rest) = n + 1) :
    n ≤ rest.length ∧ ∀ c ∈ rest.take n, 0x80 ≤ c := by
  rw [runeLen] at h
  split at h
  · rename_i hle
    have hn : n = 0 := by omega
    subst hn
    exact ⟨Nat.zero_le _, fun c hc => absurd hc (by simp)⟩
  · rename_i hlt
    split_ifs at h with htail
    have hn : n = (first b).1 - 1 := by omega
    rw [hn]
    exact runeTail_spec htail (by omega) (le_first b)

/-- A rune does not depend on what follows it. -/
lemma runeLen_append {n : ℕ} (h : runeLen (b :: rest) = n + 1) (more : Bytes) :
    runeLen (b :: rest ++ more) = n + 1 := by
  rw [cons_append, runeLen]
  rw [runeLen] at h
  split at h
  · rename_i hle
    rw [if_pos hle, h]
  · rename_i hlt
    split_ifs at h with htail
    rw [if_neg hlt, if_pos (runeTail_append htail more), h]

/-- A text can be cut after an ASCII byte. -/
lemma validUtf8From_of_append (hb : b < 0x80) (hskip : ∀ c ∈ (a ++ b :: s).take skip, 0x80 ≤ c)
    (h : validUtf8From skip (a ++ b :: s) = true) : validUtf8 s = true := by
  induction a generalizing skip with
  | nil =>
    cases skip with
    | succ skip => exact absurd (hskip b (by simp)) (not_le.2 hb)
    | zero =>
      rw [nil_append, validUtf8From, runeLen_ascii hb] at h
      exact h
  | cons c a ih =>
    cases skip with
    | succ skip =>
      refine ih ?_ h
      intro d hd
      exact hskip d (by rw [cons_append, take_succ_cons]; exact mem_cons_of_mem _ hd)
    | zero =>
      rw [cons_append, validUtf8From] at h
      split at h
      · cases h
      · rename_i n hn
        exact ih (runeLen_tail hn).2 h

lemma validUtf8_of_append (hb : b < 0x80) (h : validUtf8 (a ++ b :: s) = true) :
    validUtf8 s = true :=
  validUtf8From_of_append hb (fun c hc => absurd hc (by simp)) h

/-- A text may be followed by another one. -/
lemma validUtf8From_append (ha : validUtf8From skip a = true) (hs : validUtf8 s = true) :
    validUtf8From skip (a ++ s) = true := by
  induction a generalizing skip with
  | nil =>
    rw [validUtf8From, decide_eq_true_eq] at ha
    rw [ha]
    exact hs
  | cons c a ih =>
    cases skip with
    | succ skip => exact ih ha
    | zero =>
      rw [validUtf8From] at ha
      split at ha
      · cases ha
      rename_i n hn
      have hn' := runeLen_append hn s
      rw [cons_append] at hn'
      rw [cons_append, validUtf8From, hn']
      exact ih ha

lemma validUtf8_append (ha : validUtf8 a = true) (hs : validUtf8 s = true) :
    validUtf8 (a ++ s) = true :=
  validUtf8From_append ha hs

/-! ## Paths -/

def slash : Byte := 0x2F

def dot : Byte := 0x2E

/-- The parts of a path between its slashes. -/
def components (p : Bytes) : List Bytes := p.splitOn slash

/-- A part that stands for itself. -/
def Proper (c : Bytes) : Prop := c ≠ [] ∧ c ≠ [dot] ∧ c ≠ [dot, dot]

/-- The parts that are left after those that are read, the last one first. -/
def resolve (stack : List Bytes) : List Bytes → List Bytes
  | [] => stack.reverse
  | c :: cs =>
    if c = [] ∨ c = [dot] then resolve stack cs
    else if c = [dot, dot] then resolve stack.tail cs
    else resolve (c :: stack) cs

/-- `path.Clean` for a path that starts with a slash: both without it. -/
def clean (p : Bytes) : Bytes := [slash].intercalate (resolve [] (components p))

lemma resolve_of_proper {stack cs : List Bytes} (h : ∀ c ∈ cs, Proper c) :
    resolve stack cs = stack.reverse ++ cs := by
  induction cs generalizing stack with
  | nil => rw [resolve, append_nil]
  | cons c cs ih =>
    rcases h c mem_cons_self with ⟨hnil, hdot, hdots⟩
    rw [resolve, if_neg (by simp [hnil, hdot]), if_neg hdots,
      ih (forall_mem_cons.1 h).2]
    simp

lemma mem_resolve {stack cs : List Bytes} (hstack : ∀ c ∈ stack, Proper c)
    (h : c ∈ resolve stack cs) : Proper c ∧ (c ∈ stack ∨ c ∈ cs) := by
  induction cs generalizing stack with
  | nil =>
    rw [resolve, mem_reverse] at h
    exact ⟨hstack c h, Or.inl h⟩
  | cons d cs ih =>
    rw [resolve] at h
    split at h
    · rcases ih hstack h with ⟨hproper, hmem⟩
      exact ⟨hproper, hmem.imp_right fun h => mem_cons_of_mem _ h⟩
    rename_i hskip
    split_ifs at h with hdots
    · rcases ih (fun c hc => hstack c (mem_of_mem_tail hc)) h with ⟨hproper, hmem | hmem⟩
      · exact ⟨hproper, Or.inl (mem_of_mem_tail hmem)⟩
      · exact ⟨hproper, Or.inr (mem_cons_of_mem _ hmem)⟩
    rw [not_or] at hskip
    have hd : Proper d := ⟨hskip.1, hskip.2, hdots⟩
    have hstack' : ∀ c ∈ d :: stack, Proper c := by
      intro c hc
      rcases mem_cons.1 hc with rfl | hc
      · exact hd
      · exact hstack c hc
    rcases ih hstack' h with ⟨hproper, hmem | hmem⟩
    · rcases mem_cons.1 hmem with rfl | hmem
      · exact ⟨hproper, Or.inr mem_cons_self⟩
      · exact ⟨hproper, Or.inl hmem⟩
    · exact ⟨hproper, Or.inr (mem_cons_of_mem _ hmem)⟩

lemma components_append (p q : Bytes) :
    components (p ++ slash :: q) = components p ++ components q :=
  splitOn_append_cons_self p q

lemma components_of_not_mem (h : slash ∉ p) : components p = [p] :=
  splitOn_eq_singleton h

lemma slash_not_mem (h : c ∈ components p) : slash ∉ c := by
  induction hn : p.length using Nat.strong_induction_on generalizing p with
  | _ n ih =>
    by_cases hmem : slash ∈ p
    · rcases append_of_mem hmem with ⟨q, r, rfl⟩
      rw [components_append] at h
      rw [length_append, length_cons] at hn
      rcases mem_append.1 h with h | h
      · exact ih q.length (by omega) h rfl
      · exact ih r.length (by omega) h rfl
    · rw [components_of_not_mem hmem, mem_singleton] at h
      rw [h]
      exact hmem

/-- A path is clean if its parts stand for themselves. -/
theorem clean_eq_iff : clean p = p ↔ p = [] ∨ ∀ c ∈ components p, Proper c := by
  unfold clean
  constructor
  · intro h
    by_cases hnil : resolve [] (components p) = []
    · rw [hnil] at h
      exact Or.inl h.symm
    have hmem : ∀ c ∈ resolve [] (components p), Proper c ∧ slash ∉ c := by
      intro c hc
      rcases mem_resolve (by simp) hc with ⟨hproper, hmem | hmem⟩
      · exact absurd hmem not_mem_nil
      · exact ⟨hproper, slash_not_mem hmem⟩
    have hsplit := splitOn_intercalate slash (fun c hc => (hmem c hc).2) hnil
    rw [h] at hsplit
    right
    intro c hc
    rw [components, hsplit] at hc
    exact (hmem c hc).1
  · rintro (rfl | h)
    · rfl
    · rw [resolve_of_proper h]
      exact intercalate_splitOn slash

lemma mem_components_snoc (hb : b ≠ slash) (h : c ∈ components (p ++ [b])) :
    c ∈ components p ∨ ∃ d, c = d ++ [b] := by
  induction hn : p.length using Nat.strong_induction_on generalizing p with
  | _ n ih =>
    by_cases hmem : slash ∈ p
    · rcases append_of_mem hmem with ⟨q, r, rfl⟩
      rw [append_assoc, cons_append, components_append] at h
      rw [components_append, mem_append]
      rw [length_append, length_cons] at hn
      rcases mem_append.1 h with h | h
      · exact Or.inl (Or.inl h)
      · exact (ih r.length (by omega) h rfl).imp_left Or.inr
    · have hnot : slash ∉ p ++ [b] := by
        rw [mem_append, mem_singleton]
        rintro (h | h)
        · exact hmem h
        · exact hb h.symm
      rw [components_of_not_mem hnot, mem_singleton] at h
      exact Or.inr ⟨p, h⟩

end Kubernetes.ByteString
