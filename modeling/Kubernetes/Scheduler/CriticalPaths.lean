import Kubernetes.Scheduler.PodTopologySpread

/-! # Two paths for the minimum

`criticalPaths` remembers two topology values, the empty string standing for none. While the
numbers are entered, these are the two smallest (`Smallest`). When only the number of one value
`v` changes, one path follows `v` once it is small and the other one keeps the least number of
the other values (`Follows`), which is all that the minimum needs.
-/

namespace Kubernetes.Scheduler.PodTopologySpread.CriticalPaths

/-- Enter the numbers of the values, in any order. -/
def enter (values : List String) (count : String → Int) : CriticalPaths :=
  values.foldr (fun v p => p.update v (count v)) new

/-- Change the number of `v` again and again, `numbers` being the newest first. -/
def change (v : String) (numbers : List Int) (p : CriticalPaths) : CriticalPaths :=
  numbers.foldr (fun n p => p.update v n) p

variable {values : List String} {count : String → Int} {p : CriticalPaths} {v : String}
  {m n n' : Int}

/-- The paths of the two smallest numbers. -/
structure Smallest (values : List String) (count : String → Int) (p : CriticalPaths) : Prop where
  sorted : p.first.matchNum ≤ p.second.matchNum
  first_le : ∀ v ∈ values, p.first.matchNum ≤ count v
  second_le : ∀ v ∈ values, v ≠ p.first.topologyValue → p.second.matchNum ≤ count v
  first : p.first = ⟨"", 2 ^ 31 - 1⟩ ∨
    p.first.topologyValue ∈ values ∧ p.first.matchNum = count p.first.topologyValue
  second : p.second = ⟨"", 2 ^ 31 - 1⟩ ∨
    p.second.topologyValue ∈ values ∧ p.second.matchNum = count p.second.topologyValue ∧
      p.second.topologyValue ≠ p.first.topologyValue

lemma Smallest.update (h : Smallest values count p) (hv : v ∉ values)
    (hmax : ∀ w ∈ v :: values, count w ≤ 2 ^ 31 - 1) :
    Smallest (v :: values) count (p.update v (count v)) := by
  obtain ⟨⟨a, m⟩, ⟨b, n⟩⟩ := p
  obtain ⟨hsorted, hfirst, hsecond, ha, hb⟩ := h
  simp only [CriticalPath.mk.injEq] at *
  unfold CriticalPaths.update CriticalPaths.sorted
  -- a value that is entered for the first time can only be in a path as the empty string
  split_ifs <;> constructor <;> grind

lemma smallest_enter (hnodup : values.Nodup) (hmax : ∀ v ∈ values, count v ≤ 2 ^ 31 - 1) :
    Smallest values count (enter values count) := by
  induction values with
  | nil => constructor <;> simp [enter, new]
  | cons v values ih =>
    have hrest := ih (List.nodup_cons.1 hnodup).2 (List.forall_mem_cons.1 hmax).2
    exact hrest.update (List.nodup_cons.1 hnodup).1 hmax

/-- One path has the number `n` of `v`, or both are not above it, and the other path has the
least number `m` of the other values. -/
def Follows (v : String) (m n : Int) (p : CriticalPaths) : Prop :=
  (p.first.topologyValue = v ∧ p.first.matchNum = n ∧ p.second.matchNum = m ∧ n ≤ m ∧
    (p.second.topologyValue = v → m = 2 ^ 31 - 1)) ∨
  (p.first.topologyValue ≠ v ∧ p.first.matchNum = m ∧ m ≤ p.second.matchNum ∧
    if p.second.topologyValue = v then p.second.matchNum = n else p.second.matchNum ≤ n)

lemma Follows.update (h : Follows v m n p) (hmax : n' ≤ 2 ^ 31 - 1) :
    Follows v m n' (p.update v n') := by
  obtain ⟨⟨a, k⟩, ⟨b, l⟩⟩ := p
  unfold Follows at h ⊢
  unfold CriticalPaths.update CriticalPaths.sorted
  split_ifs <;> grind

lemma Smallest.follows (h : Smallest values count p) (hv : v ∈ values)
    (hmax : ∀ w ∈ values, count w ≤ 2 ^ 31 - 1) :
    ∃ m, Follows v m (count v) p ∧ m ≤ 2 ^ 31 - 1 ∧ (∀ w ∈ values, w ≠ v → m ≤ count w) ∧
      (m = 2 ^ 31 - 1 ∨ ∃ w ∈ values, w ≠ v ∧ count w = m) := by
  obtain ⟨⟨a, k⟩, ⟨b, l⟩⟩ := p
  obtain ⟨hsorted, hfirst, hsecond, ha, hb⟩ := h
  simp only [CriticalPath.mk.injEq] at *
  unfold Follows
  by_cases hav : a = v
  · exact ⟨l, by grind⟩
  · exact ⟨k, by grind⟩

lemma isLeast_insert_iff {f : String → Int} :
    IsLeast (insert (2 ^ 31 - 1) (f '' {w | w ∈ values})) m ↔
      (m = 2 ^ 31 - 1 ∨ ∃ w ∈ values, f w = m) ∧ m ≤ 2 ^ 31 - 1 ∧ ∀ w ∈ values, m ≤ f w := by
  simp [IsLeast, mem_lowerBounds]

/-- After any changes of one number the first path has the least number of all values, and
`MaxInt32` if there are none. -/
theorem critical_paths_minimum (values : List String) (hnodup : values.Nodup)
    (count : String → Int) (hcount : ∀ w ∈ values, count w ≤ 2 ^ 31 - 1) (v : String)
    (numbers : List Int) (hnumbers : ∀ n ∈ numbers, v ∈ values ∧ n ≤ 2 ^ 31 - 1) :
    IsLeast (insert (2 ^ 31 - 1)
        (Function.update count v (numbers.headD (count v)) '' {w | w ∈ values}))
      (change v numbers (enter values count)).first.matchNum ∧
    (change v numbers (enter values count)).first.matchNum ≤
      (change v numbers (enter values count)).second.matchNum := by
  have hsmallest := smallest_enter hnodup hcount
  rw [isLeast_insert_iff]
  cases numbers with
  | nil =>
    simp only [change, List.foldr_nil, List.headD_nil, Function.update_eq_self]
    obtain ⟨hsorted, hfirst, -, hmem, -⟩ := hsmallest
    grind
  | cons n numbers =>
    obtain ⟨hv, hn⟩ := hnumbers n List.mem_cons_self
    obtain ⟨m, hfollows, hmax, hle, hmem⟩ := hsmallest.follows hv hcount
    have hrun : ∀ l : List Int, (∀ n ∈ l, n ≤ 2 ^ 31 - 1) →
        Follows v m (l.headD (count v)) (change v l (enter values count)) := by
      intro l hl
      induction l with
      | nil => exact hfollows
      | cons n l ih => exact (ih (List.forall_mem_cons.1 hl).2).update (hl n List.mem_cons_self)
    have hlast := hrun (n :: numbers) fun n hn => (hnumbers n hn).2
    generalize change v (n :: numbers) (enter values count) = p at hlast ⊢
    simp only [List.headD_cons, Follows, Function.update_apply] at hlast ⊢
    grind

theorem critical_paths_minimum_zones :
    (change "a" [3, 7, 0] (enter ["b", "", "a"] fun v => v.length)).first.matchNum = 0 ∧
      IsLeast (insert (2 ^ 31 - 1) (Function.update (fun v : String => (v.length : Int)) "a" 3 ''
        {w | w ∈ ["b", "", "a"]})) 0 :=
  ⟨by decide, (critical_paths_minimum ["b", "", "a"] (by decide) (fun v => v.length) (by decide) "a"
    [3, 7, 0] (by decide)).1⟩

end Kubernetes.Scheduler.PodTopologySpread.CriticalPaths
