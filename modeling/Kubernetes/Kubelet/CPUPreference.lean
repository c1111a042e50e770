import Kubernetes.KeyOrder
import Kubernetes.Kubelet.CPUTopology

/-! # Which CPUs are preferred

`freeCores` and `freeCPUs` sort by several keys. Their comparisons ask whether some key is
smaller, which is the documented order only where the keys agree (`preference_orders_iff`).
-/

namespace Kubernetes.Kubelet

open List KeyOrder

/-- The slice is sorted if the comparison is a strict weak order of its elements. -/
def SortSlice.Sorts (sorting : SortSlice) : Prop :=
  ∀ less l, IsStrictWeakOrder {x | x ∈ l} (fun x y => less x y = true) →
    (sorting.sort less l).Pairwise fun x y => less y x = false

namespace CPUAccumulator

variable (topo : CPUTopology) (a : CPUAccumulator)

/-- The documented keys of `freeCores`. -/
def socketKeys : List (Nat → Int) := [fun s => (a.freeCoresIn topo s).card, fun s => s]

def socketLess (i j : Nat) : Bool :=
  (a.freeCoresIn topo i).card < (a.freeCoresIn topo j).card || i < j

def socketOf (core : Nat) : Nat :=
  (topo.details.info ((topo.details.cpusInCores core).toSlice.headD 0)).socketID

/-- The documented keys of `freeCPUs`. -/
def coreKeys : List (Nat → Int) :=
  [fun c => -(topo.details.cpusInSockets (socketOf topo c) ∩ a.result).card,
    fun c => (a.details.cpusInSockets (socketOf topo c)).card,
    fun c => (a.details.cpusInCores c).card, fun c => socketOf topo c, fun c => c]

lemma socketLess_iff (i j : Nat) :
    a.socketLess topo i j = true ↔ AnyLess (a.socketKeys topo) i j := by
  simp [socketLess, AnyLess, socketKeys]

lemma coreLess_iff (i j : Nat) : a.coreLess topo i j = true ↔ AnyLess (a.coreKeys topo) i j := by
  simp [coreLess, AnyLess, coreKeys, socketOf, or_assoc]

/-- The comparison is a strict weak order of the elements, the lexicographic one of the keys. -/
structure Realises (less : Nat → Nat → Bool) (keys : List (Nat → Int)) (l : List Nat) : Prop where
  weak : IsStrictWeakOrder {x | x ∈ l} fun x y => less x y = true
  lex : ∀ x ∈ l, ∀ y ∈ l, less x y = true ↔ scores keys x < scores keys y

lemma realises_iff {less : Nat → Nat → Bool} {keys : List (Nat → Int)} (l : List Nat)
    (hless : ∀ x y, less x y = true ↔ AnyLess keys x y) :
    Realises less keys l ↔ ∀ x ∈ l, ∀ y ∈ l, Agree keys x y := by
  have hiff := anyLess_iff keys {x | x ∈ l}
  simp only [← hless] at hiff
  exact Iff.trans ⟨fun h => ⟨h.weak, h.lex⟩, fun h => ⟨h.1, h.2⟩⟩ hiff

/-- The last key tells different elements apart, so there is one way to sort them. -/
lemma Realises.sort_eq {less : Nat → Nat → Bool} {keys : List (Nat → Int)} {l : List Nat}
    (h : Realises less keys l) (hid : (fun x : Nat => (x : Int)) ∈ keys)
    (hless : ∀ x y, less x y = true ↔ AnyLess keys x y) {sorting sorting' : SortSlice}
    (hsorts : sorting.Sorts) (hsorts' : sorting'.Sorts) :
    sorting.sort less l = sorting'.sort less l := by
  have hle : ∀ {x y : Nat}, less y x = false → x ≤ y := by
    intro x y hyx
    by_contra hlt
    rw [(hless y x).2 ⟨_, hid, by omega⟩] at hyx
    cases hyx
  exact Perm.eq_of_pairwise (fun x y _ _ hxy hyx => Nat.le_antisymm (hle hxy) (hle hyx))
    (hsorts less l h.weak) (hsorts' less l h.weak)
    ((sorting.perm less l).trans (sorting'.perm less l).symm)

/-- The two comparisons are strict weak orders, the documented ones, and determine the lists
exactly if a socket with a smaller number never has more free cores and no two keys of
`freeCPUs` disagree. -/
theorem preference_orders_iff (topo : CPUTopology) (a : CPUAccumulator) :
    (Realises (a.socketLess topo) (a.socketKeys topo) a.details.sockets.toSlice ∧
        Realises (a.coreLess topo) (a.coreKeys topo) a.details.cores.toSlice ∧
        ∀ sorting sorting' : SortSlice, sorting.Sorts → sorting'.Sorts →
          a.freeCores sorting topo = a.freeCores sorting' topo ∧
            a.freeCPUs sorting topo = a.freeCPUs sorting' topo) ↔
      (∀ i ∈ a.details.sockets, ∀ j ∈ a.details.sockets, i < j →
          (a.freeCoresIn topo i).card ≤ (a.freeCoresIn topo j).card) ∧
        ∀ i ∈ a.details.cores, ∀ j ∈ a.details.cores, Agree (a.coreKeys topo) i j := by
  have hsockets := realises_iff a.details.sockets.toSlice (socketLess_iff topo a)
  have hcores := realises_iff a.details.cores.toSlice (coreLess_iff topo a)
  simp only [CPUSet.mem_toSlice] at hsockets hcores
  have hagree : (∀ i ∈ a.details.sockets, ∀ j ∈ a.details.sockets, Agree (a.socketKeys topo) i j) ↔
      ∀ i ∈ a.details.sockets, ∀ j ∈ a.details.sockets, i < j →
        (a.freeCoresIn topo i).card ≤ (a.freeCoresIn topo j).card := by
    simp only [Agree, socketKeys, forall_mem_cons, not_mem_nil, Nat.cast_le]
    grind
  rw [← hagree, ← hsockets, ← hcores]
  refine ⟨fun h => ⟨h.1, h.2.1⟩, fun ⟨hs, hc⟩ => ⟨hs, hc, fun sorting sorting' h h' => ?_⟩⟩
  have hs := hs.sort_eq (by simp [socketKeys]) (socketLess_iff topo a) h h'
  have hc := hc.sort_eq (by simp [coreKeys]) (coreLess_iff topo a) h h'
  exact ⟨congrArg (List.flatMap _) hs, congrArg (List.flatMap _) hc⟩

/-- Three cores, of which these are on the second socket. -/
def threeCores (second : CPUSet) : CPUTopology where
  numCPUs := 3
  numCores := 3
  numSockets := 2
  details := ⟨{0, 1, 2}, fun c => ⟨0, if c ∈ second then 1 else 0, c⟩⟩
  isInt := by simp

theorem preference_orders_last :
    Realises ((CPUAccumulator.new (threeCores {1, 2}) {0, 1, 2} 1).socketLess (threeCores {1, 2}))
      ((CPUAccumulator.new (threeCores {1, 2}) {0, 1, 2} 1).socketKeys (threeCores {1, 2}))
      (CPUAccumulator.new (threeCores {1, 2}) {0, 1, 2} 1).details.sockets.toSlice :=
  ((preference_orders_iff _ _).2 ⟨by decide, by
    simp only [Agree, coreKeys]
    decide⟩).1

/-- The first socket has two free cores and the second one has one: each comes before the
other. -/
theorem preference_both_ways :
    let a := CPUAccumulator.new (threeCores {2}) {0, 1, 2} 1
    a.socketLess (threeCores {2}) 0 1 = true ∧ a.socketLess (threeCores {2}) 1 0 = true ∧
      0 ∈ a.details.sockets ∧ 1 ∈ a.details.sockets := by
  decide

end CPUAccumulator

end Kubernetes.Kubelet
