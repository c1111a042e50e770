import Kubernetes.Core

/-! # Shuffle sharding

A model of `shufflesharding`. `Deal` takes one remainder for each card of a hand out of a hash
value. A card is its remainder, moved past the remainders of the cards before it, the last one
first: the first card is taken out of the deck, and the others are dealt from what is left.

`deal_bijective`: every hash value gives a hand of different cards, and the small ones give each
hand once.
-/

namespace Kubernetes.Apiserver

open List Nat Set

/-- A `Dealer` that `NewDealer` accepts. -/
structure Dealer where
  deckSize : ℕ
  handSize : ℕ
  handSize_pos : 0 < handSize
  handSize_le : handSize ≤ deckSize
  deckSize_le : deckSize ≤ 2 ^ 26
  entropy : deckSize ^ handSize ≤ 2 ^ 60

inductive DealerError where
  | notPositive
  | handSizeGreater
  | deckSizeLarge
  | entropyBits

/-- `NewDealer`. The logarithm of `RequiredEntropyBits` is taken as exact. -/
def newDealer (deckSize handSize : ℤ) : Except DealerError Dealer :=
  if hpos : deckSize ≤ 0 ∨ handSize ≤ 0 then .error .notPositive
  else if hle : handSize > deckSize then .error .handSizeGreater
  else if hdeck : deckSize > 2 ^ 26 then .error .deckSizeLarge
  else if hbits : deckSize.toNat ^ handSize.toNat > 2 ^ 60 then .error .entropyBits
  else .ok ⟨deckSize.toNat, handSize.toNat, by omega, by omega, by omega, not_lt.1 hbits⟩

variable (d : Dealer)

namespace Dealer

/-- The first loop of `Deal`, with so many iterations left. `none` is a panic: a division by zero,
or an index that is out of range. -/
def fill (deckSize : ℕ) : ℕ → ℕ → ℕ → List ℕ → Option (List ℕ)
  | 0, _, _, remainders => some remainders
  | left + 1, i, hashValue, remainders =>
    if deckSize - i = 0 ∨ remainders.length ≤ i then none
    else
      let hashValueNext := hashValue / (deckSize - i)
      fill deckSize left (i + 1) hashValueNext
        (remainders.set i (hashValue - (deckSize - i) * hashValueNext))

def bump (remainder card : ℕ) : ℕ := if remainder ≤ card then card + 1 else card

/-- The inner loop, from `j` down. -/
def shift (remainders : List ℕ) : ℕ → ℕ → Option ℕ
  | 0, card => some card
  | j + 1, card => remainders[j]?.bind fun r => shift remainders j (bump r card)

/-- The second loop: the cards that are picked from the `i`-th on. -/
def pickFrom (remainders : List ℕ) : ℕ → ℕ → Option (List ℕ)
  | 0, _ => some []
  | left + 1, i => do
    let card ← shift remainders i (← remainders[i]?)
    return card :: (← pickFrom remainders left (i + 1))

def deal (hashValue : ℕ) : Option (List ℕ) := do
  pickFrom (← fill d.deckSize d.handSize 0 hashValue (replicate 15 0)) d.handSize 0

/-! ## Hands -/

/-- The remainders of a deck of `n` cards. -/
def remaindersOf : ℕ → ℕ → ℕ → List ℕ
  | _, 0, _ => []
  | n, k + 1, h => h % n :: remaindersOf (n - 1) k (h / n)

/-- A hand of `k` cards out of `n`: a card, and a hand of the others. -/
def hand : ℕ → ℕ → ℕ → List ℕ
  | _, 0, _ => []
  | n, k + 1, h => h % n :: (hand (n - 1) k (h / n)).map (bump (h % n))

def Hands (n k : ℕ) : Set (List ℕ) := {l | l.length = k ∧ l.Nodup ∧ ∀ c ∈ l, c < n}

variable {n k : ℕ}

lemma bump_injective (r : ℕ) : Function.Injective (bump r) := by
  intro a b hab
  unfold bump at hab
  split_ifs at hab <;> omega

lemma mem_range_bump {r c : ℕ} : c ∈ range (bump r) ↔ c ≠ r := by
  unfold bump
  constructor
  · rintro ⟨d, rfl⟩
    dsimp only
    split_ifs <;> omega
  · intro hne
    refine ⟨if r < c then c - 1 else c, ?_⟩
    dsimp only
    split_ifs <;> omega

lemma bump_lt_iff {r c : ℕ} (hr : r < n + 1) : bump r c < n + 1 ↔ c < n := by
  unfold bump
  split_ifs <;> omega

/-- A hand begins with any card, and goes on with a hand of the others. -/
lemma cons_mem_hands {c : ℕ} {cs : List ℕ} : c :: cs ∈ Hands (n + 1) (k + 1) ↔
    c < n + 1 ∧ ∃ ds ∈ Hands n k, ds.map (bump c) = cs := by
  constructor
  · rintro ⟨hlength, hnodup, hlt⟩
    rw [nodup_cons] at hnodup
    rw [forall_mem_cons] at hlt
    have hrange : cs ∈ range (map (bump c)) := by
      rw [range_list_map]
      exact fun d hd => mem_range_bump.2 fun heq => hnodup.1 (heq ▸ hd)
    obtain ⟨ds, rfl⟩ := hrange
    refine ⟨hlt.1, ds, ⟨by simpa using hlength, hnodup.2.of_map _, fun d hd => ?_⟩, rfl⟩
    exact (bump_lt_iff hlt.1).1 (hlt.2 _ (mem_map_of_mem hd))
  · rintro ⟨hc, ds, ⟨hlength, hnodup, hlt⟩, rfl⟩
    refine ⟨by simpa using hlength, nodup_cons.2 ⟨?_, hnodup.map (bump_injective c)⟩, ?_⟩
    · intro hmem
      obtain ⟨d, -, hd⟩ := mem_map.1 hmem
      exact mem_range_bump.1 ⟨d, rfl⟩ hd
    · exact forall_mem_cons.2 ⟨hc, forall_mem_map.2 fun d hd => (bump_lt_iff hc).2 (hlt d hd)⟩

lemma hand_mem (hk : k ≤ n) (h : ℕ) : hand n k h ∈ Hands n k := by
  induction k generalizing n h with
  | zero => exact ⟨rfl, nodup_nil, nofun⟩
  | succ k ih =>
    obtain ⟨n, rfl⟩ := exists_eq_add_one_of_ne_zero (show n ≠ 0 by omega)
    exact cons_mem_hands.2 ⟨mod_lt _ n.succ_pos, _, ih (by omega) _, rfl⟩

lemma hand_injOn (hk : k ≤ n) : InjOn (hand n k) (Iio (n.descFactorial k)) := by
  induction k generalizing n with
  | zero =>
    intro h hh h' hh' _
    exact (lt_one_iff.1 hh).trans (lt_one_iff.1 hh').symm
  | succ k ih =>
    obtain ⟨n, rfl⟩ := exists_eq_add_one_of_ne_zero (show n ≠ 0 by omega)
    rw [succ_descFactorial_succ]
    intro h hh h' hh' heq
    obtain ⟨hmod, hrest⟩ := List.cons.inj heq
    rw [hmod] at hrest
    have hdiv := ih (by omega) (Nat.div_lt_of_lt_mul hh) (Nat.div_lt_of_lt_mul hh')
      (map_injective_iff.2 (bump_injective _) hrest)
    rw [← div_add_mod h (n + 1), ← div_add_mod h' (n + 1), hmod, hdiv]

lemma hand_surjOn (hk : k ≤ n) : SurjOn (hand n k) (Iio (n.descFactorial k)) (Hands n k) := by
  induction k generalizing n with
  | zero =>
    rintro l ⟨hlength, -⟩
    exact ⟨0, Nat.one_pos, (length_eq_zero_iff.1 hlength).symm⟩
  | succ k ih =>
    obtain ⟨n, rfl⟩ := exists_eq_add_one_of_ne_zero (show n ≠ 0 by omega)
    intro l hl
    obtain ⟨c, cs, rfl⟩ := exists_cons_of_length_eq_add_one hl.1
    obtain ⟨hc, ds, hds, rfl⟩ := cons_mem_hands.1 hl
    obtain ⟨g, hg, rfl⟩ := ih (by omega) hds
    refine ⟨c + (n + 1) * g, ?_, ?_⟩
    · rw [mem_Iio, succ_descFactorial_succ]
      calc c + (n + 1) * g < (n + 1) * (g + 1) := by rw [mul_succ]; omega
        _ ≤ (n + 1) * n.descFactorial k := mul_le_mul_left _ hg
    · rw [hand, add_mul_mod_self_left, mod_eq_of_lt hc,
        add_mul_div_left _ _ n.succ_pos, div_eq_of_lt hc, zero_add]
      rfl

/-! ## The loops -/

lemma fill_eq {i : ℕ} (hk : i + k ≤ n) (h : ℕ) (done todo : List ℕ)
    (hdone : done.length = i) (htodo : k ≤ todo.length) :
    fill n k i h (done ++ todo) = some (done ++ remaindersOf (n - i) k h ++ todo.drop k) := by
  induction k generalizing i h done todo with
  | zero => simp [fill, remaindersOf]
  | succ k ih =>
    obtain ⟨x, todo, rfl⟩ := exists_cons_of_ne_nil (ne_nil_of_length_pos (by omega : 0 < todo.length))
    have hlength : i < (done ++ x :: todo).length := by simp [hdone]
    rw [fill, if_neg (by omega)]
    have hset : (done ++ x :: todo).set i (h - (n - i) * (h / (n - i))) =
        (done ++ [h % (n - i)]) ++ todo := by
      rw [set_append_right _ _ (by omega), hdone, Nat.sub_self, set_cons_zero, append_assoc,
        ← mod_eq_sub_mul_div]
      rfl
    dsimp only
    rw [hset, ih (by omega) _ _ _ (by simp [hdone]) (by simpa using htodo), remaindersOf,
      show n - (i + 1) = n - i - 1 by omega]
    simp

lemma shift_eq (done rest : List ℕ) (c : ℕ) :
    shift (done ++ rest) done.length c = some (done.foldr bump c) := by
  induction done using reverseRecOn generalizing rest c with
  | nil => rfl
  | append_singleton done r ih =>
    rw [length_append, length_singleton, shift, append_assoc, getElem?_append_right le_rfl]
    simp [ih]

lemma pickFrom_eq (done rest : List ℕ) (h : ℕ) :
    pickFrom (done ++ (remaindersOf n k h ++ rest)) k done.length =
      some ((hand n k h).map fun c => done.foldr bump c) := by
  induction k generalizing n h done with
  | zero => rfl
  | succ k ih =>
    have hih := ih (n := n - 1) (done ++ [h % n]) (h / n)
    rw [append_assoc, singleton_append, length_append, length_singleton] at hih
    rw [remaindersOf, cons_append, pickFrom, getElem?_append_right le_rfl, Nat.sub_self]
    simp [shift_eq, hih, hand]

lemma handSize_le_fifteen : d.handSize ≤ 15 := by
  by_contra hgt
  have hle := d.handSize_le
  have hpow : 16 ^ 16 ≤ d.deckSize ^ d.handSize :=
    (Nat.pow_le_pow_left (by omega) 16).trans (Nat.pow_le_pow_right (by omega) (by omega))
  have hentropy := d.entropy
  omega

lemma deal_eq (h : ℕ) : d.deal h = some (hand d.deckSize d.handSize h) := by
  have hfill := fill_eq (i := 0) (by simpa using d.handSize_le) h [] (replicate 15 0) rfl
    (by simpa using d.handSize_le_fifteen)
  unfold deal
  rw [← nil_append (replicate 15 0), hfill]
  simpa using pickFrom_eq (n := d.deckSize) (k := d.handSize) [] (drop d.handSize (replicate 15 0)) h

/-- Whatever the hash value, the picked cards are different and in the deck. The hash values below
`n * (n - 1) * ... * (n - k + 1)` give each hand of `k` out of `n` cards once. -/
theorem deal_bijective :
    (∀ h, ∃ cards, d.deal h = some cards ∧ cards ∈ Hands d.deckSize d.handSize) ∧
    BijOn (fun h => (d.deal h).getD []) (Iio (d.deckSize.descFactorial d.handSize))
      (Hands d.deckSize d.handSize) := by
  have hk := d.handSize_le
  refine ⟨fun h => ⟨_, d.deal_eq h, hand_mem hk h⟩, ?_⟩
  simp only [deal_eq, Option.getD_some]
  exact ⟨fun h _ => hand_mem hk h, hand_injOn hk, hand_surjOn hk⟩

/-- Hands of 3 out of 5 cards. -/
theorem deal_bijective_five : ∃ d, newDealer 5 3 = .ok d ∧
    BijOn (fun h => (d.deal h).getD []) (Iio 60) (Hands 5 3) :=
  ⟨_, rfl, (deal_bijective _).2⟩

end Dealer

end Kubernetes.Apiserver
