import Kubernetes.Kubelet.MemoryHints
import Kubernetes.Kubelet.MemoryLedger

/-! # The machine state as a ledger

`Represents` relates the tables of the machine state to a ledger, over the tables of the
default machine state. The loops of `Allocate` and `RemoveContainer` book the blocks of a
container in this ledger (`Represents.allocateBlocks`, `Represents.releaseBlocks`), and the
default machine state has booked nothing (`represents_default`).
-/

namespace Kubernetes.Kubelet.MemoryManager

open GoMap MemoryTable
open Option hiding min_eq_left min_eq_right

variable {d ms ms' : NUMANodeMap} {L : Ledger Int ResourceName} {b : Block}

/-! ## Tables -/

variable (t : MemoryTable)

/-- Move an amount from free to reserved. -/
def MemoryTable.give (x : ℕ) : MemoryTable :=
  { t with reserved := t.reserved + UInt64.ofNat x, free := t.free - UInt64.ofNat x }

/-- Move an amount from reserved to free. -/
def MemoryTable.giveBack (x : ℕ) : MemoryTable :=
  { t with reserved := t.reserved - UInt64.ofNat x, free := t.free + UInt64.ofNat x }

@[simp]
lemma MemoryTable.give_zero : t.give 0 = t := by
  simp [give]

@[simp]
lemma MemoryTable.giveBack_zero : t.giveBack 0 = t := by
  simp [giveBack]

lemma MemoryTable.take_eq (a : UInt64) :
    (t.take a).1 = t.give (min t.free.toNat a.toNat) ∧
      (t.take a).2.toNat = a.toNat - t.free.toNat := by
  unfold take
  split
  · rename_i h
    have h0 : t.free = 0 := by
      rw [UInt64.le_iff_toNat_le] at h
      exact UInt64.toNat_inj.1 (Nat.le_zero.1 h)
    rw [h0]
    simp
  · split_ifs with h
    · -- enough is free
      rw [ge_iff_le, UInt64.le_iff_toNat_le] at h
      rw [min_eq_right h]
      simp [give, Nat.sub_eq_zero_of_le h]
    · -- all that is free is taken
      rw [ge_iff_le, UInt64.not_le, UInt64.lt_iff_toNat_lt] at h
      rw [min_eq_left h.le]
      refine ⟨by simp [give], ?_⟩
      exact UInt64.toNat_sub_of_le _ _ (UInt64.le_iff_toNat_le.2 h.le)

lemma MemoryTable.release_eq (a : UInt64) :
    (t.release a).1 = t.giveBack (min t.reserved.toNat a.toNat) ∧
      (t.release a).2.toNat = a.toNat - t.reserved.toNat := by
  unfold release
  split
  · rename_i h0
    rw [h0]
    simp
  split_ifs with h
  · -- less is reserved than is to be released
    rw [UInt64.lt_iff_toNat_lt] at h
    rw [min_eq_left h.le]
    refine ⟨by simp [giveBack], ?_⟩
    exact UInt64.toNat_sub_of_le _ _ (UInt64.le_iff_toNat_le.2 h.le)
  · rw [UInt64.not_lt, UInt64.le_iff_toNat_le] at h
    rw [min_eq_right h]
    simp [giveBack, Nat.sub_eq_zero_of_le h]

/-! ## Loops over nodes -/

/-- An amount that a node has of a resource. -/
def sizeAt (size : MemoryTable → UInt64) (ms : NUMANodeMap) (r : ResourceName) (k : Int) : ℕ :=
  ((tableAt ms k r).map fun t => (size t).toNat).getD 0

/-- An iteration moves what there is room for in the table of a resource, and hands on the
rest. -/
structure Moved (resource : ResourceName) (room : MemoryTable → UInt64)
    (move : MemoryTable → ℕ → MemoryTable) (header : NUMANodeState → Int × List Int)
    (st : NUMANodeState) (a : UInt64) (st' : NUMANodeState) (a' : UInt64) : Prop where
  header_eq : (st'.numberOfAssignments, st'.cells) = header st
  tables : ∀ r, st'.memoryMap.lookup r = (st.memoryMap.lookup r).map fun t =>
    if r = resource then move t (min (room t).toNat a.toNat) else t
  rest : a'.toNat = a.toNat - ((st.memoryMap.lookup resource).map fun t => (room t).toNat).getD 0

variable {k : Int} {st : NUMANodeState} {a : UInt64}

lemma allocateNode_moved {st' : NUMANodeState} {a' : UInt64}
    (h : allocateNode b k st a = .ok (st', a')) :
    Moved b.type (·.free) give (fun st => (st.numberOfAssignments + 1, b.numaAffinity))
      st a st' a' := by
  unfold allocateNode at h
  dsimp only at h
  split at h
  · rename_i h0
    obtain ⟨rfl, rfl⟩ := Prod.mk.inj (Except.ok.inj h)
    rw [h0]
    exact ⟨rfl, fun r => by simp, by simp⟩
  obtain ⟨t, ht, h⟩ := bind_eq_ok.1 h
  rw [deref_eq_ok] at ht
  obtain ⟨rfl, rfl⟩ := Prod.mk.inj (Except.ok.inj h)
  refine ⟨rfl, fun r => ?_, ?_⟩
  · rw [lookup_insert_if]
    by_cases hr : r = b.type
    · subst hr
      rw [if_pos rfl, ht, map_some, if_pos rfl, (t.take_eq a).1]
    · simp [hr]
  · rw [ht]
    exact (t.take_eq a).2

lemma releaseNode_moved {st' : NUMANodeState} {a' : UInt64}
    (h : releaseNode b k st a = .ok (st', a')) :
    Moved b.type (·.reserved) giveBack
      (fun st => (st.numberOfAssignments - 1,
        if st.numberOfAssignments - 1 = 0 then [k] else st.cells)) st a st' a' := by
  unfold releaseNode at h
  dsimp only at h
  split at h
  · rename_i h0
    obtain ⟨rfl, rfl⟩ := Prod.mk.inj (Except.ok.inj h)
    rw [h0]
    exact ⟨rfl, fun r => by simp, by simp⟩
  obtain ⟨t, ht, h⟩ := bind_eq_ok.1 h
  rw [deref_eq_ok] at ht
  obtain ⟨rfl, rfl⟩ := Prod.mk.inj (Except.ok.inj h)
  refine ⟨rfl, fun r => ?_, ?_⟩
  · rw [lookup_insert_if]
    by_cases hr : r = b.type
    · subst hr
      rw [if_pos rfl, ht, map_some, if_pos rfl, (t.release_eq a).1]
    · simp [hr]
  · rw [ht]
    exact (t.release_eq a).2

/-- The machine state after a loop whose iterations move an amount. -/
structure Walked (resource : ResourceName) (room : MemoryTable → UInt64)
    (move : MemoryTable → ℕ → MemoryTable) (header : Int → NUMANodeState → Int × List Int)
    (nodes : List Int) (amount : ℕ) (ms ms' : NUMANodeMap) : Prop where
  nodes_eq : ∀ k, (ms'.lookup k).isSome = (ms.lookup k).isSome
  headers : ∀ k st', ms'.lookup k = some st' → ∃ st, ms.lookup k = some st ∧
    (st'.numberOfAssignments, st'.cells) =
      if k ∈ nodes then header k st else (st.numberOfAssignments, st.cells)
  tables : ∀ k r, tableAt ms' k r = (tableAt ms k r).map fun t =>
    if r = resource then move t (pour (sizeAt room ms resource) nodes amount k) else t

lemma tableAt_insert (ms : NUMANodeMap) (k k' : Int) (st : NUMANodeState) (r : ResourceName) :
    tableAt (ms.insert k st) k' r = if k' = k then st.memoryMap.lookup r else tableAt ms k' r := by
  unfold tableAt
  rw [lookup_insert_if]
  split
  · rfl
  · rfl

lemma tableAt_of_lookup (h : ms.lookup k = some st) (r : ResourceName) :
    tableAt ms k r = st.memoryMap.lookup r := by
  unfold tableAt
  rw [h]
  rfl

/-- A loop pours the amount over the nodes in their order. -/
lemma walk_walked {missing : Failure} {resource : ResourceName} {room : MemoryTable → UInt64}
    {body : Int → NUMANodeState → UInt64 → Except Failure (NUMANodeState × UInt64)}
    {move : MemoryTable → ℕ → MemoryTable} {header : Int → NUMANodeState → Int × List Int}
    (hbody : ∀ k st a st' a', body k st a = .ok (st', a') →
      Moved resource room move (header k) st a st' a')
    (hzero : ∀ t, move t 0 = t) {nodes : List Int} (hnodup : nodes.Nodup) {amount : UInt64}
    (h : walk missing body nodes ms amount = .ok ms') :
    Walked resource room move header nodes amount.toNat ms ms' := by
  induction nodes generalizing ms amount with
  | nil =>
    cases h
    refine ⟨fun _ => rfl, fun k st' hst => ⟨st', hst, by simp⟩, fun k r => ?_⟩
    simp [hzero]
  | cons k0 nodes ih =>
    rw [List.nodup_cons] at hnodup
    unfold walk at h
    cases hst0 : ms.lookup k0 with
    | none =>
      rw [hst0] at h
      cases h
    | some st0 =>
      rw [hst0] at h
      -- the first round writes `st1`; the others run on the map with it
      obtain ⟨⟨st1, a1⟩, hmove, hrest⟩ := bind_eq_ok.1 h
      have hmoved := hbody _ _ _ _ _ hmove
      have hwalked := ih hnodup.2 hrest
      have hhead : ∀ r, tableAt ms k0 r = st0.memoryMap.lookup r := tableAt_of_lookup hst0
      -- the first node has its share, and the rest of the loop does not touch it
      have hsize : sizeAt room ms resource k0 =
          ((st0.memoryMap.lookup resource).map fun t => (room t).toNat).getD 0 := by
        unfold sizeAt
        rw [hhead]
      have hpour : ∀ k ≠ k0, pour (sizeAt room ms resource) (k0 :: nodes) amount.toNat k =
          pour (sizeAt room (ms.insert k0 st1) resource) nodes a1.toNat k := by
        intro k hk
        rw [pour_cons_ne _ _ _ hk, hsize, ← hmoved.rest]
        refine pour_congr (fun k' hk' => ?_) _ _
        unfold sizeAt
        rw [tableAt_insert, if_neg]
        rintro rfl
        exact hnodup.1 hk'
      constructor
      case nodes_eq =>
        intro k
        rw [hwalked.nodes_eq, lookup_insert_if]
        split_ifs with hk
        · rw [hk, hst0]
          rfl
        · rfl
      case headers =>
        intro k st' hst'
        obtain ⟨st, hst, hheader⟩ := hwalked.headers k st' hst'
        rw [lookup_insert_if] at hst
        by_cases hk : k = k0
        · subst hk
          rw [if_pos rfl] at hst
          obtain rfl := Option.some.inj hst
          rw [if_neg hnodup.1, hmoved.header_eq] at hheader
          exact ⟨st0, hst0, by rw [if_pos List.mem_cons_self, hheader]⟩
        · rw [if_neg hk] at hst
          refine ⟨st, hst, ?_⟩
          simpa [hk] using hheader
      case tables =>
        intro k r
        rw [hwalked.tables, tableAt_insert]
        by_cases hk : k = k0
        · subst hk
          rw [if_pos rfl, hmoved.tables, hhead, map_map]
          cases ht : st0.memoryMap.lookup r with
          | none => rfl
          | some t =>
            rw [map_some, map_some]
            congr 1
            by_cases hr : r = resource
            · subst hr
              rw [ht, map_some, getD_some] at hsize
              simp only [Function.comp_apply, if_true, pour_of_notMem hnodup.1, hzero,
                pour_cons_self, hsize]
            · simp [hr]
        · rw [if_neg hk, hpour k hk]

/-! ## Ledgers -/

/-- What the ledger books for a block. -/
def Block.holding (b : Block) : Holding Int ResourceName := ⟨b.numaAffinity, b.type, b.size.toNat⟩

/-- What the nodes can give to containers. -/
def capacity (d : NUMANodeMap) (k : Int) (r : ResourceName) : ℕ := sizeAt (·.allocatable) d r k

/-- A table of the default machine state with an amount reserved. -/
def MemoryTable.withReserved (t : MemoryTable) (x : ℕ) : MemoryTable :=
  { t with reserved := UInt64.ofNat x, free := UInt64.ofNat (t.allocatable.toNat - x) }

/-- A machine state with the default tables `d` has booked what the ledger says. -/
structure Represents (d ms : NUMANodeMap) (L : Ledger Int ResourceName) : Prop where
  nodes : ∀ k, (ms.lookup k).isSome = (d.lookup k).isSome
  headers : ∀ k st, ms.lookup k = some st → (st.numberOfAssignments, st.cells) = (L.count k, L.cells k)
  tables : ∀ k r, tableAt ms k r = (tableAt d k r).map fun t => t.withReserved (L.reserved k r)

variable {t : MemoryTable}

lemma capacity_of_tableAt {r : ResourceName} (h : tableAt d k r = some t) :
    capacity d k r = t.allocatable.toNat := by
  unfold capacity sizeAt
  rw [h]
  rfl

lemma toNat_ofNat_le {x : ℕ} (h : x ≤ a.toNat) : (UInt64.ofNat x).toNat = x :=
  UInt64.toNat_ofNat_of_lt' (h.trans_lt a.toNat_lt)

lemma Represents.sizeAt_free (h : Represents d ms L) (r : ResourceName) (k : Int) :
    sizeAt (·.free) ms r k = capacity d k r - L.reserved k r := by
  unfold capacity sizeAt
  rw [h.tables]
  cases tableAt d k r with
  | none => simp
  | some t => exact toNat_ofNat_le (Nat.sub_le _ _)

lemma Represents.sizeAt_reserved (h : Represents d ms L)
    (hbound : ∀ k r, L.reserved k r ≤ capacity d k r) (r : ResourceName) (k : Int) :
    sizeAt (·.reserved) ms r k = L.reserved k r := by
  have hle := hbound k r
  unfold capacity sizeAt at hle
  unfold sizeAt
  rw [h.tables]
  cases ht : tableAt d k r with
  | none =>
    rw [ht] at hle
    exact (Nat.le_zero.1 hle).symm
  | some t =>
    rw [ht] at hle
    exact toNat_ofNat_le hle

lemma Represents.allocateBlock (h : Represents d ms L) (hnodup : b.numaAffinity.Nodup)
    (hstep : allocateBlock ms b = .ok ms') :
    Represents d ms' (L.place (capacity d) b.holding) := by
  have hwalked : Walked b.type (·.free) give
      (fun _ st => (st.numberOfAssignments + 1, b.numaAffinity)) b.numaAffinity b.size.toNat ms ms' := by
    refine walk_walked ?_ give_zero hnodup hstep
    exact fun _ _ _ _ _ => allocateNode_moved
  constructor
  case nodes =>
    intro k
    rw [hwalked.nodes_eq, h.nodes]
  case headers =>
    intro k st' hst'
    obtain ⟨st, hst, heq⟩ := hwalked.headers k st' hst'
    have hold := Prod.mk.inj (h.headers k st hst)
    rw [heq, hold.1, hold.2]
    exact (L.place_header (capacity d) b.holding k).symm
  case tables =>
    intro k r
    rw [hwalked.tables, h.tables, map_map]
    refine Option.map_congr fun t ht => ?_
    rw [Function.comp_apply]
    by_cases hr : r = b.type
    · subst hr
      have hplace : (L.place (capacity d) b.holding).reserved k b.type = L.reserved k b.type +
          pour (fun k => capacity d k b.type - L.reserved k b.type) b.numaAffinity b.size.toNat k :=
        L.place_reserved_self (capacity d) b.holding k
      rw [hplace, if_pos rfl, pour_congr fun k _ => h.sizeAt_free b.type k]
      have hle := pour_le (fun k => capacity d k b.type - L.reserved k b.type) b.numaAffinity
        b.size.toNat k
      rw [capacity_of_tableAt ht] at hle
      unfold give withReserved
      rw [UInt64.ofNat_add, ← Nat.sub_sub, UInt64.ofNat_sub hle]
    · rw [if_neg hr, Ledger.place_reserved_ne (capacity d) L k hr]

lemma Represents.releaseBlock (h : Represents d ms L)
    (hbound : ∀ k r, L.reserved k r ≤ capacity d k r) (hnodup : b.numaAffinity.Nodup)
    (hstep : releaseBlock ms b = .ok ms') : Represents d ms' (L.release b.holding) := by
  have hwalked : Walked b.type (·.reserved) giveBack
      (fun k st => (st.numberOfAssignments - 1,
        if st.numberOfAssignments - 1 = 0 then [k] else st.cells))
      b.numaAffinity b.size.toNat ms ms' := by
    refine walk_walked ?_ giveBack_zero hnodup hstep
    exact fun _ _ _ _ _ => releaseNode_moved
  constructor
  case nodes =>
    intro k
    rw [hwalked.nodes_eq, h.nodes]
  case headers =>
    intro k st' hst'
    obtain ⟨st, hst, heq⟩ := hwalked.headers k st' hst'
    have hold := Prod.mk.inj (h.headers k st hst)
    rw [heq, hold.1, hold.2]
    exact (L.release_header b.holding k).symm
  case tables =>
    intro k r
    rw [hwalked.tables, h.tables, map_map]
    refine Option.map_congr fun t ht => ?_
    rw [Function.comp_apply]
    by_cases hr : r = b.type
    · subst hr
      have hrelease : (L.release b.holding).reserved k b.type = L.reserved k b.type -
          pour (fun k => L.reserved k b.type) b.numaAffinity b.size.toNat k :=
        L.release_reserved_self b.holding k
      rw [hrelease, if_pos rfl, pour_congr fun k _ => h.sizeAt_reserved hbound b.type k]
      have hle := pour_le (fun k => L.reserved k b.type) b.numaAffinity b.size.toNat k
      have hcap := hbound k b.type
      rw [capacity_of_tableAt ht] at hcap
      unfold giveBack withReserved
      rw [← UInt64.ofNat_sub hle, ← UInt64.ofNat_add]
      congr 2
      omega
    · rw [if_neg hr, Ledger.release_reserved_ne L k hr]

/-- The blocks of a container are booked one after another. -/
theorem Represents.allocateBlocks {blocks : List Block} (h : Represents d ms L)
    (hnodup : ∀ b ∈ blocks, b.numaAffinity.Nodup)
    (hstep : blocks.foldlM MemoryManager.allocateBlock ms = .ok ms') :
    Represents d ms' ((blocks.map Block.holding).foldl (Ledger.place (capacity d)) L) := by
  induction blocks generalizing ms L with
  | nil =>
    cases hstep
    exact h
  | cons b blocks ih =>
    rw [List.foldlM_cons] at hstep
    obtain ⟨ms1, hfirst, hrest⟩ := bind_eq_ok.1 hstep
    exact ih (h.allocateBlock (hnodup b List.mem_cons_self) hfirst)
      (List.forall_mem_cons.1 hnodup).2 hrest

theorem Represents.releaseBlocks {blocks : List Block} {bs : List (Holding Int ResourceName)}
    (h : Represents d ms L) (hs : L.Sound (capacity d) (blocks.map Block.holding ++ bs))
    (hstep : blocks.foldlM MemoryManager.releaseBlock ms = .ok ms') :
    Represents d ms' ((blocks.map Block.holding).foldl Ledger.release L) := by
  induction blocks generalizing ms L with
  | nil =>
    cases hstep
    exact h
  | cons b blocks ih =>
    rw [List.foldlM_cons] at hstep
    obtain ⟨ms1, hfirst, hrest⟩ := bind_eq_ok.1 hstep
    exact ih (h.releaseBlock hs.bound (hs.nodup b.holding List.mem_cons_self) hfirst) hs.release hrest

/-! ## The default machine state -/

/-- A table of which nothing is reserved. -/
def MemoryTable.Untouched (t : MemoryTable) : Prop := t.reserved = 0 ∧ t.free = t.allocatable

lemma MemoryTable.Untouched.withReserved_zero (h : t.Untouched) :
    t.withReserved 0 = t := by
  obtain ⟨total, systemReserved, allocatable, reserved, free⟩ := t
  obtain ⟨hres, hfree⟩ := h
  simp only at hres hfree
  subst hres hfree
  simp [withReserved]

/-- A node that is not used. -/
structure Idle (k : Int) (st : NUMANodeState) : Prop where
  count : st.numberOfAssignments = 0
  cells : st.cells = [k]
  tables : ∀ r t, st.memoryMap.lookup r = some t → t.Untouched

lemma untouched_insert {m : GoMap ResourceName MemoryTable} {r : ResourceName}
    (h : ∀ r t, m.lookup r = some t → t.Untouched) (ht : t.Untouched) :
    ∀ r' t', (m.insert r t).lookup r' = some t' → t'.Untouched := by
  intro r' t' h'
  rw [lookup_insert_if] at h'
  split at h'
  · exact Option.some.inj h' ▸ ht
  · exact h r' t' h'

lemma addNUMANode_idle {p : Policy} {acc : NUMANodeMap × GoMap Int UInt64} {node : NUMANode}
    (h : ∀ k st, acc.1.lookup k = some st → Idle k st) :
    ∀ k st, (addNUMANode p acc node).1.lookup k = some st → Idle k st := by
  have hpages : ∀ r t, (node.hugePages.foldl (addHugePages p node.id) (∅, acc.2)).1.lookup r =
      some t → t.Untouched := by
    refine List.foldlRecOn (motive := fun (acc : GoMap ResourceName MemoryTable × GoMap Int UInt64) =>
      ∀ r t, acc.1.lookup r = some t → t.Untouched) node.hugePages _ ?_ ?_
    · intro r t ht
      cases ht
    · intro acc hacc hugepage _
      exact untouched_insert hacc ⟨rfl, rfl⟩
  intro k st hst
  unfold addNUMANode at hst
  rw [lookup_insert_if] at hst
  split_ifs at hst with hk
  · obtain rfl := Option.some.inj hst
    exact ⟨rfl, by rw [hk], untouched_insert hpages ⟨rfl, rfl⟩⟩
  · exact h k st hst

lemma default_idle (p : Policy) (h : (getDefaultMachineState p).lookup k = some st) :
    Idle k st := by
  refine List.foldlRecOn (motive := fun (acc : NUMANodeMap × GoMap Int UInt64) =>
    ∀ k st, acc.1.lookup k = some st → Idle k st) p.topology (addNUMANode p) ?_ ?_ k st h
  · intro k st hst
    cases hst
  · intro acc hacc node _
    exact addNUMANode_idle hacc

theorem represents_default (p : Policy) :
    Represents (getDefaultMachineState p) (getDefaultMachineState p) Ledger.empty := by
  constructor
  case nodes => exact fun _ => rfl
  case headers =>
    intro k st hst
    have hidle := default_idle p hst
    rw [hidle.count, hidle.cells]
    rfl
  case tables =>
    intro k r
    unfold tableAt
    cases hst : (getDefaultMachineState p).lookup k with
    | none => rfl
    | some st =>
      cases ht : st.memoryMap.lookup r with
      | none => simp [ht]
      | some t =>
        have heq := ((default_idle p hst).tables r t ht).withReserved_zero
        simp only [bind_some, ht, map_some]
        exact congrArg some heq.symm

end Kubernetes.Kubelet.MemoryManager
