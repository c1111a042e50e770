import Kubernetes.Core

/-! # The end of a growing list in a cyclic buffer

The entries of a list are written one after the other into the cells of a buffer; entry `i`
is kept in cell `i % capacity`. Two running indices say which entries are still there:
those from `startIndex` up to `endIndex`. The capacity can change, and shrinking drops the
oldest entries.

`Holds r log`: the buffer `r` was filled with `log` and keeps its entries from
`r.startIndex` on. Pushing an entry (`Holds.push`) and changing the capacity (`Holds.resize`)
keep it.
-/

namespace Kubernetes

open List Nat

/-- A cyclic buffer. Both indices can be greater than the capacity. -/
structure RingBuffer (α : Type) where
  cells : List (Option α)
  capacity : ℕ
  startIndex : ℕ
  endIndex : ℕ

namespace RingBuffer

variable {α : Type}

/-- A buffer of empty cells. -/
def empty (capacity : ℕ) : RingBuffer α := ⟨List.replicate capacity none, capacity, 0, 0⟩

variable (r : RingBuffer α)

/-- What the cell of index `i` holds. -/
def cell (i : ℕ) : Option α := (r.cells[i % r.capacity]?).join

def full : Bool := r.endIndex == r.startIndex + r.capacity

/-- Write the next entry; in a full buffer it takes the place of the oldest one. -/
def push (x : α) : RingBuffer α :=
  { r with
    startIndex := if r.full then r.startIndex + 1 else r.startIndex
    cells := r.cells.set (r.endIndex % r.capacity) (some x)
    endIndex := r.endIndex + 1 }

/-- Copy the entries into a buffer of another capacity. -/
def resize (capacity : ℕ) : RingBuffer α :=
  let start := if capacity < r.capacity then r.endIndex - capacity else r.startIndex
  { cells := (List.range' start (r.endIndex - start)).foldl
      (fun cells i => cells.set (i % capacity) (r.cell i)) (List.replicate capacity none)
    capacity := capacity
    startIndex := start
    endIndex := r.endIndex }

/-- Forget all entries; the cells stay as they are. -/
def clear : RingBuffer α := { r with startIndex := 0, endIndex := 0 }

/-- The entries from index `i` on. -/
def since (i : ℕ) : List α :=
  (List.range' i (r.endIndex - i)).filterMap r.cell

/-- The buffer was filled with `log`, and keeps its entries from `startIndex` on. -/
structure Holds (r : RingBuffer α) (log : List α) : Prop where
  pos : 0 < r.capacity
  cells_length : r.cells.length = r.capacity
  end_eq : r.endIndex = log.length
  start_le : r.startIndex ≤ r.endIndex
  end_le : r.endIndex ≤ r.startIndex + r.capacity
  cell_eq : ∀ i, r.startIndex ≤ i → i < r.endIndex → r.cell i = log[i]?

/-! ## Cells -/

/-- Indices closer than the capacity have different cells. -/
lemma mod_ne {i j c : ℕ} (hij : i < j) (hj : j < i + c) : i % c ≠ j % c := by
  intro h
  have hdvd : c ∣ j - i := dvd_of_mod_eq_zero (sub_mod_eq_zero_of_mod_eq h.symm)
  have hle : c ≤ j - i := le_of_dvd (by omega) hdvd
  omega

lemma join_getElem?_set_self {cells : List (Option α)} {i : ℕ} (hi : i < cells.length)
    (x : Option α) : ((cells.set i x)[i]?).join = x := by
  rw [getElem?_set_self hi]
  rfl

lemma join_getElem?_set_ne {cells : List (Option α)} {i j : ℕ} (hij : i ≠ j)
    (x : Option α) : ((cells.set i x)[j]?).join = (cells[j]?).join := by
  rw [getElem?_set_ne hij]

/-- Copying fewer entries than there are cells: each of them is found in its cell. -/
lemma copied (f : ℕ → Option α) (capacity start n : ℕ) (hn : n ≤ capacity) :
    let cells := (List.range' start n).foldl (fun cells i => cells.set (i % capacity) (f i))
      (List.replicate capacity none)
    cells.length = capacity ∧
      ∀ i, start ≤ i → i < start + n → (cells[i % capacity]?).join = f i := by
  induction n with
  | zero =>
    refine ⟨length_replicate, ?_⟩
    intro i hle hlt
    omega
  | succ n ih =>
    rcases ih (by omega) with ⟨hlen, hcells⟩
    rw [range'_concat, foldl_append, foldl_cons, foldl_nil, one_mul]
    refine ⟨by rw [length_set, hlen], ?_⟩
    intro i hle hlt
    rcases lt_or_eq_of_le (show i ≤ start + n by omega) with hi | hi
    · -- an entry copied before: the last write went to another cell
      have hne : (start + n) % capacity ≠ i % capacity := (mod_ne hi (by omega)).symm
      rw [join_getElem?_set_ne hne]
      exact hcells i hle hi
    · subst hi
      have hbound : (start + n) % capacity < capacity := mod_lt _ (by omega)
      exact join_getElem?_set_self (by omega) _

/-! ## What the buffer holds -/

lemma holds_empty {capacity : ℕ} (h : 0 < capacity) : (empty capacity : RingBuffer α).Holds [] where
  pos := h
  cells_length := length_replicate
  end_eq := rfl
  start_le := le_rfl
  end_le := zero_le _
  cell_eq := by
    intro i _ hlt
    exact absurd hlt (not_lt_zero i)

namespace Holds

variable {r : RingBuffer α} {log : List α}

lemma clear (h : r.Holds log) : r.clear.Holds [] where
  pos := h.pos
  cells_length := h.cells_length
  end_eq := rfl
  start_le := le_rfl
  end_le := zero_le _
  cell_eq := by
    intro i _ hlt
    exact absurd hlt (not_lt_zero i)

/-- The window has room for a new entry. -/
lemma startIndex_push (h : r.Holds log) (x : α) :
    (r.push x).startIndex ≤ r.endIndex ∧ r.startIndex ≤ (r.push x).startIndex ∧
      r.endIndex + 1 ≤ (r.push x).startIndex + r.capacity := by
  have hpos := h.pos
  have hstart := h.start_le
  have hsize := h.end_le
  have hnew : (r.push x).startIndex = if r.full then r.startIndex + 1 else r.startIndex := rfl
  rw [hnew]
  by_cases hfull : r.full = true
  · have heq : r.endIndex = r.startIndex + r.capacity := by simpa [full] using hfull
    rw [if_pos hfull]
    omega
  · have hne : ¬ r.endIndex = r.startIndex + r.capacity := by simpa [full] using hfull
    rw [if_neg hfull]
    omega

theorem push (h : r.Holds log) (x : α) : (r.push x).Holds (log ++ [x]) := by
  have hpos := h.pos
  have hend := h.end_eq
  rcases h.startIndex_push x with ⟨hle, hge, hroom⟩
  constructor
  · exact hpos
  · show (r.cells.set _ _).length = r.capacity
    rw [length_set, h.cells_length]
  · show r.endIndex + 1 = (log ++ [x]).length
    rw [length_append, length_singleton, hend]
  · show (r.push x).startIndex ≤ r.endIndex + 1
    omega
  · exact hroom
  · intro i hi hlt
    have hlt' : i < r.endIndex + 1 := hlt
    show ((r.cells.set (r.endIndex % r.capacity) (some x))[i % r.capacity]?).join = _
    rcases lt_or_eq_of_le (le_of_lt_succ hlt') with hold | hnew
    · have hne : r.endIndex % r.capacity ≠ i % r.capacity := (mod_ne hold (by omega)).symm
      rw [join_getElem?_set_ne hne, getElem?_append_left (by omega)]
      exact h.cell_eq i (by omega) hold
    · subst hnew
      have hbound : r.endIndex % r.capacity < r.cells.length := by
        rw [h.cells_length]
        exact mod_lt _ hpos
      rw [join_getElem?_set_self hbound, hend, getElem?_concat_length]

/-- A full buffer can be copied to any other capacity. -/
theorem resize (h : r.Holds log) (hfull : r.full = true) {capacity : ℕ} (hpos : 0 < capacity) :
    (r.resize capacity).Holds log := by
  set start := (r.resize capacity).startIndex
  have heq : r.endIndex = r.startIndex + r.capacity := by simpa [full] using hfull
  have hwindow : start ≤ r.endIndex ∧ r.startIndex ≤ start ∧ r.endIndex - start ≤ capacity := by
    have hstart : start =
        if capacity < r.capacity then r.endIndex - capacity else r.startIndex := rfl
    rw [hstart]
    split <;> omega
  rcases hwindow with ⟨hle, hge, hroom⟩
  rcases copied r.cell capacity start _ hroom with ⟨hlen, hcells⟩
  constructor
  · exact hpos
  · exact hlen
  · exact h.end_eq
  · exact hle
  · show r.endIndex ≤ start + capacity
    omega
  · intro i hi hlt
    have hlt' : i < r.endIndex := hlt
    have hcell := hcells i hi (by omega)
    rw [h.cell_eq i (by omega) hlt'] at hcell
    exact hcell

/-- Reading from an index that is still there gives the rest of the list. -/
lemma since_eq (h : r.Holds log) {i : ℕ} (hi : r.startIndex ≤ i) : r.since i = log.drop i := by
  have hend := h.end_eq
  have hread : ∀ n, i + n ≤ log.length →
      (List.range' i n).filterMap r.cell = (log.drop i).take n := by
    intro n
    induction n with
    | zero =>
      intro _
      rfl
    | succ n ih =>
      intro hn
      rw [range'_concat, filterMap_append, ih (by omega), one_mul, take_add_one, getElem?_drop]
      congr 1
      have hcell : r.cell (i + n) = log[i + n]? := h.cell_eq (i + n) (by omega) (by omega)
      rw [filterMap_cons, hcell, getElem?_eq_getElem (by omega)]
      rfl
  rcases Nat.le_or_ge i log.length with hle | hge
  · unfold RingBuffer.since
    rw [hread _ (by omega), hend]
    exact take_of_length_le (by rw [length_drop])
  · unfold RingBuffer.since
    rw [show r.endIndex - i = 0 by omega, drop_eq_nil_of_le hge]
    rfl

end Holds

end RingBuffer

end Kubernetes
