import Kubernetes.Pour

/-! # Groups of nodes that hold memory together

What the static policy of the memory manager keeps account of, without its data structures: a
holding is an amount of one resource on a group of NUMA nodes. Its amount is poured over the
nodes of the group, and drained from them again, from the first node on. A drained amount need
not come from the nodes on which it was put, so only the totals of a group say something about
its holdings.

1. `Sound`: two holdings have the same group or disjoint ones, and what a group has reserved
   are its holdings. `Sound.place` and `Sound.release` keep it.
2. `Sound.packed_unique`: there is only one sound ledger for some holdings that is packed.
   So `Sound.replay` says what booking the holdings anew, in any order, gives.
-/

namespace Kubernetes.Kubelet

open List Nat

/-- An amount of a resource on a group of nodes. -/
structure Holding (ι ρ : Type*) where
  nodes : List ι
  resource : ρ
  amount : ℕ

/-- What is booked on the nodes. -/
structure Ledger (ι ρ : Type*) where
  reserved : ι → ρ → ℕ
  /-- The number of holdings on a node. -/
  count : ι → ℤ
  /-- The group of a node. -/
  cells : ι → List ι

namespace Ledger

variable {ι ρ : Type*} [DecidableEq ι] [DecidableEq ρ]

def empty : Ledger ι ρ where
  reserved _ _ := 0
  count _ := 0
  cells k := [k]

/-- Book a holding, on nodes with the given capacity. -/
def place (cap : ι → ρ → ℕ) (L : Ledger ι ρ) (b : Holding ι ρ) : Ledger ι ρ where
  reserved k r := L.reserved k r +
    if r = b.resource then pour (fun k => cap k r - L.reserved k r) b.nodes b.amount k else 0
  count k := L.count k + if k ∈ b.nodes then 1 else 0
  cells k := if k ∈ b.nodes then b.nodes else L.cells k

/-- Give a holding up. -/
def release (L : Ledger ι ρ) (b : Holding ι ρ) : Ledger ι ρ where
  reserved k r := L.reserved k r -
    if r = b.resource then pour (fun k => L.reserved k r) b.nodes b.amount k else 0
  count k := L.count k - if k ∈ b.nodes then 1 else 0
  cells k := if k ∈ b.nodes ∧ L.count k = 1 then [k] else L.cells k

/-- What the holdings of a group add up to. -/
def total (bs : List (Holding ι ρ)) (group : List ι) (r : ρ) : ℕ :=
  ((bs.filter fun b => b.nodes = group ∧ b.resource = r).map (·.amount)).sum

/-- The ledger accounts for the holdings. -/
structure Sound (cap : ι → ρ → ℕ) (L : Ledger ι ρ) (bs : List (Holding ι ρ)) : Prop where
  nodup : ∀ b ∈ bs, b.nodes.Nodup
  bound : ∀ k r, L.reserved k r ≤ cap k r
  count : ∀ k, L.count k = bs.countP fun b => k ∈ b.nodes
  cells : ∀ b ∈ bs, ∀ k ∈ b.nodes, L.cells k = b.nodes
  sum : ∀ b ∈ bs, ∀ r, (b.nodes.map fun k => L.reserved k r).sum = total bs b.nodes r
  unused : ∀ k, L.count k = 0 → L.cells k = [k] ∧ ∀ r, L.reserved k r = 0

/-! ## Entries -/

variable (cap : ι → ρ → ℕ)

lemma place_header (L : Ledger ι ρ) (b : Holding ι ρ) (k : ι) :
    ((L.place cap b).count k, (L.place cap b).cells k) =
      if k ∈ b.nodes then (L.count k + 1, b.nodes) else (L.count k, L.cells k) := by
  unfold place
  dsimp only
  split
  · rfl
  · rw [add_zero]

lemma place_reserved_self (L : Ledger ι ρ) (b : Holding ι ρ) (k : ι) :
    (L.place cap b).reserved k b.resource = L.reserved k b.resource +
      pour (fun k => cap k b.resource - L.reserved k b.resource) b.nodes b.amount k :=
  congrArg _ (if_pos rfl)

variable {b : Holding ι ρ}

lemma place_reserved_ne (L : Ledger ι ρ) {r : ρ} (k : ι) (h : r ≠ b.resource) :
    (L.place cap b).reserved k r = L.reserved k r :=
  (congrArg _ (if_neg h)).trans (add_zero _)

variable {k : ι}

lemma place_reserved_of_notMem (L : Ledger ι ρ) (h : k ∉ b.nodes)
    (r : ρ) : (L.place cap b).reserved k r = L.reserved k r := by
  unfold place
  dsimp only
  rw [pour_of_notMem h, ite_self, add_zero]

variable (L : Ledger ι ρ)

lemma release_header (b : Holding ι ρ) (k : ι) :
    ((L.release b).count k, (L.release b).cells k) =
      if k ∈ b.nodes then (L.count k - 1, if L.count k - 1 = 0 then [k] else L.cells k)
      else (L.count k, L.cells k) := by
  unfold release
  by_cases hk : k ∈ b.nodes
  · simp [hk, sub_eq_zero]
  · simp [hk]

lemma release_reserved_self (b : Holding ι ρ) (k : ι) :
    (L.release b).reserved k b.resource = L.reserved k b.resource -
      pour (fun k => L.reserved k b.resource) b.nodes b.amount k :=
  congrArg _ (if_pos rfl)

lemma release_reserved_ne {r : ρ} (k : ι) (h : r ≠ b.resource) :
    (L.release b).reserved k r = L.reserved k r :=
  (congrArg _ (if_neg h)).trans (Nat.sub_zero _)

lemma release_reserved_of_notMem (h : k ∉ b.nodes) (r : ρ) :
    (L.release b).reserved k r = L.reserved k r := by
  unfold release
  dsimp only
  rw [pour_of_notMem h, ite_self, Nat.sub_zero]

/-! ## Totals -/

lemma total_cons (b : Holding ι ρ) (bs : List (Holding ι ρ)) (group : List ι) (r : ρ) :
    total (b :: bs) group r =
      (if b.nodes = group ∧ b.resource = r then b.amount else 0) + total bs group r := by
  unfold total
  by_cases h : b.nodes = group ∧ b.resource = r
  · rw [filter_cons_of_pos (by simpa using h), if_pos h, map_cons, sum_cons]
  · rw [filter_cons_of_neg (by simpa using h), if_neg h, zero_add]

lemma total_append (bs cs : List (Holding ι ρ)) (group : List ι) (r : ρ) :
    total (bs ++ cs) group r = total bs group r + total cs group r := by
  unfold total
  rw [filter_append, map_append, List.sum_append]

lemma total_perm {bs cs : List (Holding ι ρ)} (h : bs.Perm cs) (group : List ι) (r : ρ) :
    total bs group r = total cs group r :=
  ((h.filter _).map _).sum_eq

variable {group : List ι}

lemma total_eq_zero {bs : List (Holding ι ρ)} (h : ∀ b ∈ bs, b.nodes ≠ group)
    (r : ρ) : total bs group r = 0 := by
  unfold total
  rw [filter_eq_nil_iff.2 fun b hb => by simp [h b hb]]
  rfl

/-! ## Soundness -/

variable {cap} {L} {bs cs : List (Holding ι ρ)}

namespace Sound

lemma empty : Sound cap (Ledger.empty : Ledger ι ρ) [] where
  nodup := by simp
  bound _ _ := zero_le _
  count _ := rfl
  cells := by simp
  sum := by simp
  unused _ _ := ⟨rfl, fun _ => rfl⟩

section

variable (h : Sound cap L bs)

include h

lemma perm (hp : bs.Perm cs) : Sound cap L cs where
  nodup b hb := h.nodup b (hp.mem_iff.2 hb)
  bound := h.bound
  count k := by rw [h.count, hp.countP_eq]
  cells b hb := h.cells b (hp.mem_iff.2 hb)
  sum b hb r := by rw [h.sum b (hp.mem_iff.2 hb), total_perm hp]
  unused := h.unused

lemma count_pos_iff : L.count k ≠ 0 ↔ ∃ b ∈ bs, k ∈ b.nodes := by
  rw [h.count k, Int.natCast_ne_zero, ← pos_iff_ne_zero, countP_pos_iff]
  simp

lemma group_eq {c d : Holding ι ρ} (hc : c ∈ bs) (hd : d ∈ bs)
    (hk : k ∈ c.nodes) (hk' : k ∈ d.nodes) : c.nodes = d.nodes := by
  rw [← h.cells c hc k hk, h.cells d hd k hk']

lemma cells_of_count (hk : L.count k ≠ 0) : ∃ b ∈ bs, k ∈ b.nodes ∧ L.cells k = b.nodes := by
  obtain ⟨b, hb, hmem⟩ := h.count_pos_iff.1 hk
  exact ⟨b, hb, hmem, h.cells b hb k hmem⟩

/-- The reserved amount of a group, whether it is in use or not. -/
lemma sum_of_free_or_group (hgroup : ∀ k ∈ group, L.count k ≠ 0 → L.cells k = group) (r : ρ) :
    (group.map fun k => L.reserved k r).sum = total bs group r := by
  by_cases hb : ∃ b ∈ bs, b.nodes = group
  · obtain ⟨b, hb, rfl⟩ := hb
    exact h.sum b hb r
  -- a group nobody has: none of its nodes is in use
  simp only [not_exists, not_and] at hb
  have hfree : ∀ k ∈ group, L.count k = 0 := by
    intro k hk
    by_contra hne
    obtain ⟨c, hc, -, hcells⟩ := h.cells_of_count hne
    exact hb c hc (hcells.symm.trans (hgroup k hk hne))
  rw [total_eq_zero hb]
  refine sum_eq_zero fun x hx => ?_
  obtain ⟨k, hk, rfl⟩ := mem_map.1 hx
  exact (h.unused k (hfree k hk)).2 r

/-! ## Booking and giving up -/

/-- A holding can be booked on nodes that are free or in its group, if they have room for it. -/
theorem place (hnodup : b.nodes.Nodup)
    (hgroup : ∀ k ∈ b.nodes, L.count k ≠ 0 → L.cells k = b.nodes)
    (hroom : b.amount ≤ (b.nodes.map fun k => cap k b.resource - L.reserved k b.resource).sum) :
    Sound cap (L.place cap b) (b :: bs) := by
  -- another group has no node of this one
  have hother : ∀ c ∈ bs, c.nodes ≠ b.nodes → ∀ k ∈ c.nodes, k ∉ b.nodes := by
    intro c hc hne k hk hkb
    have hcount : L.count k ≠ 0 := h.count_pos_iff.2 ⟨c, hc, hk⟩
    exact hne ((h.cells c hc k hk).symm.trans (hgroup k hkb hcount))
  have hsum : ∀ r, (b.nodes.map fun k => (L.place cap b).reserved k r).sum =
      total (b :: bs) b.nodes r := by
    intro r
    rw [total_cons, ← h.sum_of_free_or_group hgroup r]
    by_cases hr : b.resource = r
    · subst hr
      simp only [place_reserved_self, and_self, if_true]
      rw [sum_map_add, sum_pour _ hnodup, min_eq_left hroom, add_comm]
    · rw [if_neg fun h => hr h.2, zero_add]
      simp only [place_reserved_ne cap L _ (Ne.symm hr)]
  constructor
  case nodup =>
    intro c hc
    rcases mem_cons.1 hc with rfl | hc
    · exact hnodup
    · exact h.nodup c hc
  case bound =>
    intro k r
    have hb := h.bound k r
    unfold Ledger.place
    dsimp only
    split
    · have hp := pour_le (fun k => cap k r - L.reserved k r) b.nodes b.amount k
      omega
    · exact hb
  case count =>
    intro k
    unfold Ledger.place
    dsimp only
    rw [countP_cons, h.count k, Int.natCast_add]
    congr 1
    by_cases hk : k ∈ b.nodes
    · simp [hk]
    · simp [hk]
  case cells =>
    intro c hc k hk
    unfold Ledger.place
    dsimp only
    rcases mem_cons.1 hc with rfl | hc
    · exact if_pos hk
    split_ifs with hkb
    · by_contra hne
      exact hother c hc (Ne.symm hne) k hk hkb
    · exact h.cells c hc k hk
  case sum =>
    intro c hc r
    by_cases heq : c.nodes = b.nodes
    · rw [heq]
      exact hsum r
    rcases mem_cons.1 hc with rfl | hc
    · exact absurd rfl heq
    -- the nodes of another group keep what they have
    have hkeep : ∀ k ∈ c.nodes, (L.place cap b).reserved k r = L.reserved k r :=
      fun k hk => place_reserved_of_notMem cap L (hother c hc heq k hk) r
    rw [map_congr_left hkeep, h.sum c hc r, total_cons, if_neg fun hb => heq hb.1.symm,
      zero_add]
  case unused =>
    intro k hk
    have hpos : (0 : ℤ) ≤ L.count k := by
      rw [h.count k]
      exact Int.natCast_nonneg _
    have hheader := place_header cap L b k
    split_ifs at hheader with hkb
    · rw [Prod.mk.injEq] at hheader
      omega
    rw [Prod.mk.injEq] at hheader
    rw [hheader.1] at hk
    refine ⟨hheader.2.trans (h.unused k hk).1, fun r => ?_⟩
    rw [place_reserved_of_notMem cap L hkb]
    exact (h.unused k hk).2 r

end

/-- A holding that is booked can be given up. -/
theorem release (h : Sound cap L (b :: bs)) : Sound cap (L.release b) bs := by
  have hb := mem_cons_self (a := b) (l := bs)
  have hnodup := h.nodup b hb
  have hcount : ∀ k, (L.release b).count k = bs.countP fun c => k ∈ c.nodes := by
    intro k
    unfold Ledger.release
    dsimp only
    rw [h.count k, countP_cons]
    by_cases hk : k ∈ b.nodes
    · simp [hk]
    · simp [hk]
  -- the amount of the holding is there
  have hle : b.amount ≤ (b.nodes.map fun k => L.reserved k b.resource).sum := by
    rw [h.sum b hb, total_cons, if_pos ⟨rfl, rfl⟩]
    exact le_add_right _ _
  have hsum : ∀ r, (b.nodes.map fun k => (L.release b).reserved k r).sum = total bs b.nodes r := by
    intro r
    have hold := h.sum b hb r
    rw [total_cons] at hold
    by_cases hr : b.resource = r
    · subst hr
      simp only [release_reserved_self, if_true, and_self] at hold ⊢
      have hsplit : (b.nodes.map fun k => L.reserved k b.resource).sum =
          (b.nodes.map fun k => L.reserved k b.resource -
            pour (fun k => L.reserved k b.resource) b.nodes b.amount k).sum +
          (b.nodes.map fun k =>
            pour (fun k => L.reserved k b.resource) b.nodes b.amount k).sum := by
        rw [← sum_map_add]
        congr 1
        refine map_congr_left fun k _ => ?_
        have := pour_le (fun k => L.reserved k b.resource) b.nodes b.amount k
        omega
      rw [sum_pour _ hnodup, min_eq_left hle] at hsplit
      omega
    · rw [if_neg fun h => hr h.2, zero_add] at hold
      simp only [release_reserved_ne L _ (Ne.symm hr)]
      exact hold
  constructor
  case nodup => exact (forall_mem_cons.1 h.nodup).2
  case bound => exact fun k r => (sub_le _ _).trans (h.bound k r)
  case count => exact hcount
  case cells =>
    intro c hc k hk
    -- a node of another holding is still in use
    have hpos : 0 < bs.countP fun c => k ∈ c.nodes :=
      countP_pos_iff.2 ⟨c, hc, by simpa using hk⟩
    have hk' := hcount k
    unfold Ledger.release at hk' ⊢
    dsimp only at hk' ⊢
    rw [if_neg]
    · exact h.cells c (mem_cons_of_mem _ hc) k hk
    · rintro ⟨hkb, hone⟩
      rw [if_pos hkb] at hk'
      omega
  case sum =>
    intro c hc r
    by_cases heq : c.nodes = b.nodes
    · rw [heq]
      exact hsum r
    have hkeep : ∀ k ∈ c.nodes, (L.release b).reserved k r = L.reserved k r := by
      intro k hk
      have hkb : k ∉ b.nodes := fun hkb => heq (h.group_eq (mem_cons_of_mem _ hc) hb hk hkb)
      exact release_reserved_of_notMem L hkb r
    rw [map_congr_left hkeep, h.sum c (mem_cons_of_mem _ hc) r, total_cons,
      if_neg fun hb => heq hb.1.symm, zero_add]
  case unused =>
    intro k hk
    rw [hcount k, Int.natCast_eq_zero, countP_eq_zero] at hk
    have hold := h.count k
    rw [countP_cons, countP_eq_zero.2 hk, zero_add] at hold
    by_cases hkb : k ∈ b.nodes
    · -- the last holding of its group
      have hlast : ∀ c ∈ bs, c.nodes ≠ b.nodes := by
        intro c hc heq
        have := hk c hc
        simp [heq, hkb] at this
      simp only [hkb, decide_true, if_true] at hold
      constructor
      · unfold Ledger.release
        exact if_pos ⟨hkb, hold⟩
      intro r
      have hzero := hsum r
      rw [total_eq_zero hlast, sum_eq_zero_iff] at hzero
      exact hzero _ (mem_map_of_mem hkb)
    · simp only [hkb, decide_false, if_false, Bool.false_eq_true] at hold
      unfold Ledger.release
      dsimp only
      rw [if_neg fun hc => hkb hc.1]
      refine ⟨(h.unused k hold).1, fun r => ?_⟩
      rw [(h.unused k hold).2 r, Nat.zero_sub]

lemma release_all {olds : List (Holding ι ρ)} (h : Sound cap L (olds ++ bs)) :
    Sound cap (olds.foldl Ledger.release L) bs := by
  induction olds generalizing L with
  | nil => exact h
  | cons b olds ih => exact ih h.release

end Sound

/-! ## Packed ledgers -/

/-- Each group has what it holds on its first nodes. -/
def Front (cap : ι → ρ → ℕ) (L : Ledger ι ρ) (bs : List (Holding ι ρ)) : Prop :=
  ∀ b ∈ bs, ∀ r, Packed (fun k => cap k r) b.nodes fun k => L.reserved k r

/-- A holding that can be given up without moving others: it is all that its group has of the
resource, or what the group has is on one node. -/
def Loose (L : Ledger ι ρ) (b : Holding ι ρ) : Prop :=
  b.amount = 0 ∨ (b.nodes.map fun k => L.reserved k b.resource).sum = b.amount ∨
    ∀ i ∈ b.nodes, ∀ j ∈ b.nodes, 0 < L.reserved i b.resource → 0 < L.reserved j b.resource → i = j

namespace Front

omit [DecidableEq ι] [DecidableEq ρ] in
lemma perm (h : Front cap L bs) (hp : bs.Perm cs) : Front cap L cs :=
  fun b hb => h b (hp.mem_iff.2 hb)

theorem place (h : Front cap L bs) (hs : Sound cap L bs) (hnodup : b.nodes.Nodup)
    (hgroup : ∀ k ∈ b.nodes, L.count k ≠ 0 → L.cells k = b.nodes) :
    Front cap (L.place cap b) (b :: bs) := by
  have hpacked : ∀ r, Packed (fun k => cap k r) b.nodes fun k => L.reserved k r := by
    intro r
    by_cases hb : ∃ c ∈ bs, c.nodes = b.nodes
    · obtain ⟨c, hc, heq⟩ := hb
      rw [← heq]
      exact h c hc r
    simp only [not_exists, not_and] at hb
    refine (Packed.empty _ _).congr fun k hk => ?_
    have hfree : L.count k = 0 := by
      by_contra hne
      obtain ⟨c, hc, -, hcells⟩ := hs.cells_of_count hne
      exact hb c hc (hcells.symm.trans (hgroup k hk hne))
    exact ((hs.unused k hfree).2 r).symm
  intro c hc r
  by_cases heq : c.nodes = b.nodes
  · rw [heq]
    by_cases hr : r = b.resource
    · subst hr
      refine ((hpacked b.resource).pour hnodup (fun k => hs.bound k _) b.amount).congr fun k _ => ?_
      exact (place_reserved_self cap L b k).symm
    · exact (hpacked r).congr fun k _ => (place_reserved_ne cap L k hr).symm
  · rcases mem_cons.1 hc with rfl | hc
    · exact absurd rfl heq
    refine (h c hc r).congr fun k hk => ?_
    have hkb : k ∉ b.nodes := by
      intro hkb
      have hcount : L.count k ≠ 0 := hs.count_pos_iff.2 ⟨c, hc, hk⟩
      exact heq ((hs.cells c hc k hk).symm.trans (hgroup k hkb hcount))
    exact (place_reserved_of_notMem cap L hkb r).symm

theorem release (h : Front cap L (b :: bs)) (hs : Sound cap L (b :: bs)) (hb : L.Loose b) :
    Front cap (L.release b) bs := by
  have hmem := mem_cons_self (a := b) (l := bs)
  intro c hc r
  by_cases heq : c.nodes = b.nodes
  · rw [heq]
    by_cases hr : r = b.resource
    · subst hr
      refine ((h b hmem b.resource).drain (hs.nodup b hmem) hb).congr fun k _ => ?_
      exact (release_reserved_self L b k).symm
    · exact (h b hmem r).congr fun k _ => (release_reserved_ne L k hr).symm
  · refine (h c (mem_cons_of_mem _ hc) r).congr fun k hk => ?_
    have hkb : k ∉ b.nodes := fun hkb => heq (hs.group_eq (mem_cons_of_mem _ hc) hmem hk hkb)
    exact (release_reserved_of_notMem L hkb r).symm

lemma release_all {olds : List (Holding ι ρ)} (h : Front cap L (olds ++ bs))
    (hs : Sound cap L (olds ++ bs)) (hres : (olds.map (·.resource)).Nodup)
    (hloose : ∀ b ∈ olds, L.Loose b) : Front cap (olds.foldl Ledger.release L) bs := by
  induction olds generalizing L with
  | nil => exact h
  | cons b olds ih =>
    rw [map_cons, nodup_cons] at hres
    refine ih (h.release hs (hloose b mem_cons_self)) hs.release hres.2 fun c hc => ?_
    have hne : c.resource ≠ b.resource := fun heq => hres.1 (heq ▸ mem_map_of_mem hc)
    unfold Loose
    simp only [release_reserved_ne L _ hne]
    exact hloose c (mem_cons_of_mem _ hc)

end Front

namespace Sound

variable {M : Ledger ι ρ}

lemma place_all {news : List (Holding ι ρ)} (h : Sound cap L bs)
    (hnodup : group.Nodup) (hnews : ∀ b ∈ news, b.nodes = group)
    (hres : (news.map (·.resource)).Nodup)
    (hgroup : ∀ k ∈ group, L.count k ≠ 0 → L.cells k = group)
    (hroom : ∀ b ∈ news,
      b.amount ≤ (group.map fun k => cap k b.resource - L.reserved k b.resource).sum) :
    Sound cap (news.foldl (Ledger.place cap) L) (news ++ bs) ∧
      (Front cap L bs → Front cap (news.foldl (Ledger.place cap) L) (news ++ bs)) := by
  induction news generalizing L bs with
  | nil => exact ⟨h, id⟩
  | cons b news ih =>
    obtain rfl := hnews b mem_cons_self
    rw [map_cons, nodup_cons] at hres
    have hplaced := h.place hnodup hgroup (hroom b mem_cons_self)
    have hrest := ih hplaced (forall_mem_cons.1 hnews).2 hres.2
      (fun k hk _ => if_pos hk) (fun c hc => by
        have hne : c.resource ≠ b.resource := fun heq => hres.1 (heq ▸ mem_map_of_mem hc)
        simp only [place_reserved_ne cap L _ hne]
        exact hroom c (mem_cons_of_mem _ hc))
    exact ⟨hrest.1.perm perm_middle, fun hfront =>
      (hrest.2 (hfront.place h hnodup hgroup)).perm perm_middle⟩

theorem packed_unique (hL : Sound cap L bs) (hM : Sound cap M bs) (hfL : Front cap L bs)
    (hfM : Front cap M bs) : L = M := by
  have hcount : L.count = M.count := funext fun k => (hL.count k).trans (hM.count k).symm
  have hused : ∀ k, (∃ b ∈ bs, k ∈ b.nodes) ∨ (L.count k = 0 ∧ M.count k = 0) := by
    intro k
    by_cases hk : L.count k = 0
    · exact .inr ⟨hk, by rw [← hcount]; exact hk⟩
    · exact .inl (hL.count_pos_iff.1 hk)
  have hcells : L.cells = M.cells := by
    funext k
    rcases hused k with ⟨b, hb, hk⟩ | ⟨h0, h0'⟩
    · rw [hL.cells b hb k hk, hM.cells b hb k hk]
    · rw [(hL.unused k h0).1, (hM.unused k h0').1]
  have hreserved : L.reserved = M.reserved := by
    funext k r
    rcases hused k with ⟨b, hb, hk⟩ | ⟨h0, h0'⟩
    · exact (hfL b hb r).unique (hfM b hb r) (fun k _ => hL.bound k r) (fun k _ => hM.bound k r)
        ((hL.sum b hb r).trans (hM.sum b hb r).symm) k hk
    · rw [(hL.unused k h0).2 r, (hM.unused k h0').2 r]
  cases L
  cases M
  simp only at hcount hcells hreserved
  rw [hcount, hcells, hreserved]

/-- The holdings of a sound ledger can be booked anew, in any order. -/
theorem replay {done rest : List (Holding ι ρ)} (h : Sound cap L bs) (hperm : (rest ++ done).Perm bs)
    (hM : Sound cap M done) (hfM : Front cap M done) :
    Sound cap (rest.foldl (Ledger.place cap) M) bs ∧
      Front cap (rest.foldl (Ledger.place cap) M) bs := by
  induction rest generalizing M done with
  | nil => exact ⟨hM.perm hperm, hfM.perm hperm⟩
  | cons b rest ih =>
    have hb : b ∈ bs := hperm.mem_iff.1 (mem_append_left _ mem_cons_self)
    have hdone : ∀ c ∈ done, c ∈ bs := fun c hc => hperm.mem_iff.1 (mem_append_right _ hc)
    have hnodup := h.nodup b hb
    have hgroup : ∀ k ∈ b.nodes, M.count k ≠ 0 → M.cells k = b.nodes := by
      intro k hk hcount
      obtain ⟨c, hc, hkc, hcells⟩ := hM.cells_of_count hcount
      exact hcells.trans (h.group_eq (hdone c hc) hb hkc hk)
    have hroom : b.amount ≤
        (b.nodes.map fun k => cap k b.resource - M.reserved k b.resource).sum := by
      -- the group had room for all its holdings
      have hfull := (h.sum b hb b.resource).symm
      rw [← total_perm hperm, cons_append, total_cons, if_pos ⟨rfl, rfl⟩, total_append,
        ← hM.sum_of_free_or_group hgroup] at hfull
      have hcap : (b.nodes.map fun k => L.reserved k b.resource).sum ≤
          (b.nodes.map fun k => cap k b.resource).sum :=
        sum_le_sum fun k _ => h.bound k b.resource
      have hsplit : (b.nodes.map fun k => cap k b.resource).sum =
          (b.nodes.map fun k => cap k b.resource - M.reserved k b.resource).sum +
            (b.nodes.map fun k => M.reserved k b.resource).sum := by
        rw [← sum_map_add]
        congr 1
        refine map_congr_left fun k _ => ?_
        have := hM.bound k b.resource
        omega
      omega
    refine ih (perm_middle.trans hperm) ?_ ?_
    · exact hM.place hnodup hgroup hroom
    · exact hfM.place hM hnodup hgroup

end Sound

end Ledger

end Kubernetes.Kubelet
