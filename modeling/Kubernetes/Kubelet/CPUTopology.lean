import Kubernetes.Kubelet.CPUSet

/-! # Taking CPUs by topology

A model of `cpumanager/topology` and of `cpu_assignment.go`: whole sockets are taken first,
then whole cores, then single CPUs. The comparison functions given to `sort.Slice` are not
orderings, so the order it produces is not determined; it is an argument of the model
(`SortSlice`), of which only is known that it permutes the slice.

The result is `takeByTopology_ok`: if enough of the CPUs exist and are available, exactly as
many as requested are taken from them.
-/

namespace Kubernetes.Kubelet

open List Finset

structure CPUInfo where
  numaNodeID : Int
  socketID : Nat
  coreID : Nat
deriving DecidableEq

/-- `CPUDetails`, a map from CPUs to their places: its keys and what it says about them. -/
structure CPUDetails where
  cpus : CPUSet
  info : Nat → CPUInfo

namespace CPUDetails

variable (d : CPUDetails)

def keepOnly (cpus : CPUSet) : CPUDetails :=
  { d with cpus := d.cpus.filter (· ∈ cpus) }

def sockets : CPUSet := d.cpus.image fun c => (d.info c).socketID

def cores : CPUSet := d.cpus.image fun c => (d.info c).coreID

def cpusInSockets (id : Nat) : CPUSet :=
  d.cpus.filter fun c => (d.info c).socketID = id

def cpusInCores (id : Nat) : CPUSet :=
  d.cpus.filter fun c => (d.info c).coreID = id

def coresInSockets (id : Nat) : CPUSet :=
  (d.cpusInSockets id).image fun c => (d.info c).coreID

def cpusInNUMANodes (id : Int) : CPUSet :=
  d.cpus.filter fun c => (d.info c).numaNodeID = id

end CPUDetails

structure CPUTopology where
  numCPUs : Nat
  numCores : Nat
  numSockets : Nat
  details : CPUDetails
  /-- The numbers of CPUs are Go integers. -/
  isInt : ∀ c ∈ details.cpus, c < 2 ^ 63

namespace CPUTopology

variable (topo : CPUTopology)

def cpus : CPUSet := topo.details.cpus

def cpusPerCore : Nat :=
  if topo.numCores = 0 then 0 else topo.numCPUs / topo.numCores

def cpusPerSocket : Nat :=
  if topo.numSockets = 0 then 0 else topo.numCPUs / topo.numSockets

end CPUTopology

/-- What `sort.Slice` does with a slice and a comparison function. -/
structure SortSlice where
  sort : (Nat → Nat → Bool) → List Nat → List Nat
  perm : ∀ less l, (sort less l).Perm l

variable (less : Nat → Nat → Bool)

/-- The slice sorted so far, last element first, with one more element: it moves down while
it compares less. -/
def insertLast (sorted : List Nat) (x : Nat) : List Nat :=
  sorted.takeWhile (less x) ++ x :: sorted.dropWhile (less x)

lemma insertLast_perm (sorted : List Nat) (x : Nat) :
    (insertLast less sorted x).Perm (x :: sorted) := by
  refine perm_middle.trans (List.Perm.cons x ?_)
  rw [takeWhile_append_dropWhile]

/-- Sorting by insertion, as the library sorts short slices. -/
def SortSlice.insertion : SortSlice where
  sort less l := (l.foldl (insertLast less) []).reverse
  perm less l := by
    have hfold : ∀ sorted : List Nat, (l.foldl (insertLast less) sorted).Perm (sorted ++ l) := by
      induction l with
      | nil => simp
      | cons x l ih =>
        intro sorted
        refine (ih _).trans (((insertLast_perm less sorted x).append_right l).trans ?_)
        exact perm_middle.symm
    exact (reverse_perm _).trans (hfold [])

/-! ## The accumulator -/

structure CPUAccumulator where
  details : CPUDetails
  numCPUsNeeded : Int
  result : CPUSet

variable (sorting : SortSlice) (topo : CPUTopology)

namespace CPUAccumulator

def new (availableCPUs : CPUSet) (numCPUs : Int) : CPUAccumulator where
  details := topo.details.keepOnly availableCPUs
  numCPUsNeeded := numCPUs
  result := ∅

variable (a : CPUAccumulator)

def take (cpus : CPUSet) : CPUAccumulator where
  result := a.result ∪ cpus
  details := a.details.keepOnly (a.details.cpus \ (a.result ∪ cpus))
  numCPUsNeeded := a.numCPUsNeeded - cpus.card

def isSocketFree (socketID : Nat) : Bool :=
  (a.details.cpusInSockets socketID).card = topo.cpusPerSocket

def isCoreFree (coreID : Nat) : Bool :=
  (a.details.cpusInCores coreID).card = topo.cpusPerCore

def freeSockets : List Nat :=
  CPUSet.toSlice (a.details.sockets.filter fun s => a.isSocketFree topo s)

def freeCoresIn (socketID : Nat) : CPUSet :=
  (a.details.coresInSockets socketID).filter fun c => a.isCoreFree topo c

def freeCores : List Nat :=
  let less i j := (a.freeCoresIn topo i).card < (a.freeCoresIn topo j).card || i < j
  (sorting.sort less a.details.sockets.toSlice).flatMap fun s => (a.freeCoresIn topo s).toSlice

/-- The comparison of two cores in `freeCPUs`. -/
def coreLess (iCore jCore : Nat) : Bool :=
  let socket core := (topo.details.info ((topo.details.cpusInCores core).toSlice.headD 0)).socketID
  let coloScore core := (topo.details.cpusInSockets (socket core) ∩ a.result).card
  let socketFreeScore core := (a.details.cpusInSockets (socket core)).card
  let coreFreeScore core := (a.details.cpusInCores core).card
  coloScore iCore > coloScore jCore ||
    socketFreeScore iCore < socketFreeScore jCore ||
    coreFreeScore iCore < coreFreeScore jCore ||
    socket iCore < socket jCore ||
    iCore < jCore

def freeCPUs : List Nat :=
  (sorting.sort (a.coreLess topo) a.details.cores.toSlice).flatMap fun core =>
    (a.details.cpusInCores core).toSlice

def needs (n : Nat) : Bool := a.numCPUsNeeded ≥ n

def isSatisfied : Bool := a.numCPUsNeeded < 1

def isFailed : Bool := a.numCPUsNeeded > a.details.cpus.card

/-- The loop over whole sockets or whole cores, which have `size` CPUs: it stops when the
request is satisfied or needs no whole one any more. -/
def claimWhole (members : CPUDetails → Nat → CPUSet) (size : Nat) :
    List Nat → CPUAccumulator → CPUAccumulator
  | [], a => a
  | id :: ids, a =>
    let a := a.take (members a.details id)
    if a.isSatisfied then a else if !a.needs size then a else claimWhole members size ids a

def claimCPUs : List Nat → CPUAccumulator → CPUAccumulator
  | [], a => a
  | c :: cs, a =>
    let a := if a.needs 1 then a.take {c} else a
    if a.isSatisfied then a else claimCPUs cs a

end CPUAccumulator

open CPUAccumulator in
def takeByTopology (sorting : SortSlice) (topo : CPUTopology) (availableCPUs : CPUSet)
    (numCPUs : Int) : Except String CPUSet :=
  let acc := CPUAccumulator.new topo availableCPUs numCPUs
  if acc.isSatisfied then .ok acc.result
  else if acc.isFailed then .error "not enough cpus available to satisfy request"
  else
    let acc :=
      if acc.needs topo.cpusPerSocket then
        claimWhole CPUDetails.cpusInSockets topo.cpusPerSocket (acc.freeSockets topo) acc
      else acc
    if acc.isSatisfied then .ok acc.result
    else
      let acc :=
        if acc.needs topo.cpusPerCore then
          claimWhole CPUDetails.cpusInCores topo.cpusPerCore (acc.freeCores sorting topo) acc
        else acc
      if acc.isSatisfied then .ok acc.result
      else
        let acc := claimCPUs (acc.freeCPUs sorting topo) acc
        if acc.isSatisfied then .ok acc.result else .error "failed to allocate cpus"

/-! ## What the loops keep -/

namespace CPUAccumulator

/-- `pool` is what the accumulator started with; `n` CPUs are to be taken from it. -/
structure Inv (pool : CPUDetails) (n : Nat) (a : CPUAccumulator) : Prop where
  result_subset : a.result ⊆ pool.cpus
  details_cpus : a.details.cpus = pool.cpus \ a.result
  details_info : a.details.info = pool.info
  count : a.numCPUsNeeded = (n : Int) - a.result.card
  card_le : a.result.card ≤ n

namespace Inv

variable {pool : CPUDetails} {n : Nat} {a : CPUAccumulator}

/-- Taking CPUs that are still there, and not more than needed. -/
lemma take (h : Inv pool n a) {cpus : CPUSet} (hsub : cpus ⊆ a.details.cpus)
    (hcard : (cpus.card : Int) ≤ a.numCPUsNeeded) : Inv pool n (a.take cpus) := by
  rw [h.details_cpus, subset_sdiff] at hsub
  obtain ⟨hpool, hdisj⟩ := hsub
  have hunion : (a.result ∪ cpus).card = a.result.card + cpus.card :=
    card_union_of_disjoint hdisj.symm
  have hcount := h.count
  exact {
    result_subset := union_subset h.result_subset hpool
    details_cpus := by
      ext c
      simp only [CPUAccumulator.take, CPUDetails.keepOnly, Finset.mem_filter, mem_sdiff,
        mem_union, h.details_cpus]
      tauto
    details_info := h.details_info
    count := by
      show a.numCPUsNeeded - cpus.card = n - ((a.result ∪ cpus).card : Int)
      rw [hunion]
      omega
    card_le := by
      show (a.result ∪ cpus).card ≤ n
      rw [hunion]
      omega }

lemma satisfied (h : Inv pool n a) (hs : a.isSatisfied = true) : a.result.card = n := by
  unfold isSatisfied at hs
  rw [decide_eq_true_eq, h.count] at hs
  have hle := h.card_le
  omega

/-- The loop over whole parts of the machine. No part in the list has more than `size` CPUs
left, since parts only shrink. -/
lemma claimWhole {members : CPUDetails → Nat → CPUSet} {size : Nat} {p : CPUInfo → Nat}
    (hmembers : ∀ d id, members d id = d.cpus.filter fun c => p (d.info c) = id)
    (ids : List Nat) (h : Inv pool n a) (hneeds : a.needs size = true)
    (hids : ∀ id ∈ ids, (members a.details id).card ≤ size) :
    Inv pool n (claimWhole members size ids a) := by
  induction ids generalizing a with
  | nil => exact h
  | cons id ids ih =>
    have hneeds' : (size : Int) ≤ a.numCPUsNeeded := by
      unfold needs at hneeds
      rwa [decide_eq_true_eq] at hneeds
    have hid := hids id List.mem_cons_self
    have htake : Inv pool n (a.take (members a.details id)) :=
      h.take (hmembers _ _ ▸ Finset.filter_subset _ _) (by omega)
    unfold CPUAccumulator.claimWhole
    simp only
    split
    · exact htake
    split_ifs with hstill
    · exact htake
    refine ih htake (by simpa using hstill) fun id' hid' => ?_
    -- what is left of another part is no more than before
    have hshrink : members (a.take (members a.details id)).details id' ⊆
        members a.details id' := by
      rw [hmembers, hmembers a.details id']
      exact filter_subset_filter _ (Finset.filter_subset _ _)
    exact (card_le_card hshrink).trans (hids id' (List.mem_cons_of_mem _ hid'))

/-- The loop over single CPUs, which are all still there: it satisfies the request or takes
them all. -/
lemma claimCPUs (cs : List Nat) (h : Inv pool n a) (hnodup : cs.Nodup)
    (hcs : ∀ c ∈ cs, c ∈ a.details.cpus) :
    Inv pool n (claimCPUs cs a) ∧ ((claimCPUs cs a).isSatisfied = true ∨
      (claimCPUs cs a).numCPUsNeeded = a.numCPUsNeeded - cs.length) := by
  induction cs generalizing a with
  | nil => exact ⟨h, .inr (by simp [CPUAccumulator.claimCPUs])⟩
  | cons c cs ih =>
    rw [nodup_cons] at hnodup
    unfold CPUAccumulator.claimCPUs
    by_cases hneeds : a.needs 1 = true
    · have hone : (1 : Int) ≤ a.numCPUsNeeded := by
        unfold needs at hneeds
        rwa [decide_eq_true_eq] at hneeds
      have htake : Inv pool n (a.take {c}) :=
        h.take (singleton_subset_iff.2 (hcs c List.mem_cons_self)) (by simpa using hone)
      rw [if_pos hneeds]
      simp only
      split_ifs with hs
      · exact ⟨htake, .inl hs⟩
      have hrest : ∀ d ∈ cs, d ∈ (a.take {c}).details.cpus := by
        intro d hd
        have hdc : d ≠ c := fun hdc => hnodup.1 (hdc ▸ hd)
        have hmem := hcs d (List.mem_cons_of_mem _ hd)
        have hres : d ∉ a.result := by
          rw [h.details_cpus, mem_sdiff] at hmem
          exact hmem.2
        simp [CPUAccumulator.take, CPUDetails.keepOnly, hmem, hres, hdc]
      obtain ⟨hinv, hend⟩ := ih htake hnodup.2 hrest
      refine ⟨hinv, hend.imp_right fun hcount => ?_⟩
      have hneeded : (a.take {c}).numCPUsNeeded = a.numCPUsNeeded - 1 := by
        simp [CPUAccumulator.take]
      rw [hcount, hneeded, length_cons]
      omega
    · -- nothing is needed: the request is satisfied already
      have hs : a.isSatisfied = true := by
        unfold needs at hneeds
        unfold isSatisfied
        rw [decide_eq_true_eq] at hneeds ⊢
        omega
      rw [if_neg hneeds]
      rw [if_pos hs]
      exact ⟨h, .inl hs⟩

end Inv

/-! ## The lists of free parts -/

variable {sorting} {topo} {a : CPUAccumulator}

lemma card_freeSockets {s : Nat} (hs : s ∈ a.freeSockets topo) :
    (a.details.cpusInSockets s).card ≤ topo.cpusPerSocket := by
  unfold freeSockets isSocketFree at hs
  rw [CPUSet.mem_toSlice, Finset.mem_filter, decide_eq_true_eq] at hs
  exact hs.2.le

lemma card_freeCores {c : Nat} (hc : c ∈ a.freeCores sorting topo) :
    (a.details.cpusInCores c).card ≤ topo.cpusPerCore := by
  unfold freeCores freeCoresIn isCoreFree at hc
  obtain ⟨s, -, hc⟩ := mem_flatMap.1 hc
  rw [CPUSet.mem_toSlice, Finset.mem_filter, decide_eq_true_eq] at hc
  exact hc.2.le

lemma mem_freeCPUs {c : Nat} : c ∈ a.freeCPUs sorting topo ↔ c ∈ a.details.cpus := by
  unfold freeCPUs
  rw [mem_flatMap]
  simp only [(sorting.perm _ _).mem_iff, CPUSet.mem_toSlice]
  constructor
  · rintro ⟨core, -, hc⟩
    exact (Finset.mem_filter.1 hc).1
  · intro hc
    exact ⟨_, mem_image_of_mem _ hc, Finset.mem_filter.2 ⟨hc, rfl⟩⟩

lemma nodup_freeCPUs (a : CPUAccumulator) : (a.freeCPUs sorting topo).Nodup := by
  have hnodup : ∀ s : CPUSet, s.toSlice.Nodup := fun s => s.toSlice_pairwise.imp Nat.ne_of_lt
  unfold freeCPUs
  rw [nodup_flatMap]
  refine ⟨fun core _ => hnodup _, ?_⟩
  refine List.Pairwise.imp ?_ ((sorting.perm _ _).nodup_iff.2 (hnodup _))
  -- a CPU belongs to one core
  intro core core' hne c hc hc'
  rw [CPUSet.mem_toSlice, CPUDetails.cpusInCores, Finset.mem_filter] at hc hc'
  exact hne (hc.2.symm.trans hc'.2)

lemma length_freeCPUs (a : CPUAccumulator) :
    (a.freeCPUs sorting topo).length = a.details.cpus.card := by
  rw [← toFinset_card_of_nodup (nodup_freeCPUs a)]
  congr 1
  ext c
  rw [mem_toFinset, mem_freeCPUs]

end CPUAccumulator

/-! ## Taking CPUs -/

section

open CPUAccumulator

variable (available : CPUSet)

lemma inv_new (n : Nat) :
    Inv (topo.details.keepOnly available) n (CPUAccumulator.new topo available n) where
  result_subset := empty_subset _
  details_cpus := by simp [CPUAccumulator.new]
  details_info := rfl
  count := by simp [CPUAccumulator.new]
  card_le := Nat.zero_le _

/-- If enough CPUs are available, as many as requested are taken from them. -/
theorem takeByTopology_ok {n : Nat} (h : n ≤ (topo.cpus ∩ available).card) :
    ∃ result, takeByTopology sorting topo available n = .ok result ∧
      result ⊆ topo.cpus ∩ available ∧ result.card = n := by
  have hpool : (topo.details.keepOnly available).cpus = topo.cpus ∩ available := by
    simp [CPUDetails.keepOnly, CPUTopology.cpus, filter_mem_eq_inter]
  -- every way to end: the accumulator is satisfied
  have hend : ∀ a, Inv (topo.details.keepOnly available) n a → a.isSatisfied = true →
      ∃ result, (Except.ok a.result : Except String CPUSet) = .ok result ∧
        result ⊆ topo.cpus ∩ available ∧ result.card = n :=
    fun a ha hs => ⟨a.result, rfl, hpool ▸ ha.result_subset, ha.satisfied hs⟩
  have hinv := inv_new topo available n
  have hnew : (CPUAccumulator.new topo available n).isFailed = false := by
    have hcard : (CPUAccumulator.new topo available n).details.cpus.card =
        (topo.cpus ∩ available).card := congrArg Finset.card hpool
    unfold isFailed
    rw [decide_eq_false_iff_not, hcard]
    show ¬ (n : Int) > _
    omega
  unfold takeByTopology
  generalize CPUAccumulator.new topo available n = acc at hinv hnew
  simp only
  split
  · rename_i hs
    exact hend acc hinv hs
  rw [hnew, if_neg Bool.false_ne_true]
  -- whole sockets
  have hsockets : Inv (topo.details.keepOnly available) n
      (if acc.needs topo.cpusPerSocket then
        claimWhole CPUDetails.cpusInSockets topo.cpusPerSocket (acc.freeSockets topo) acc
      else acc) := by
    split_ifs with hneeds
    · exact hinv.claimWhole (p := CPUInfo.socketID) (fun _ _ => rfl) _ hneeds
        fun s hs => card_freeSockets hs
    · exact hinv
  generalize (if acc.needs topo.cpusPerSocket then _ else acc) = acc1 at hsockets ⊢
  split
  · rename_i hs
    exact hend acc1 hsockets hs
  -- whole cores
  have hcores : Inv (topo.details.keepOnly available) n
      (if acc1.needs topo.cpusPerCore then
        claimWhole CPUDetails.cpusInCores topo.cpusPerCore (acc1.freeCores sorting topo) acc1
      else acc1) := by
    split_ifs with hneeds
    · exact hsockets.claimWhole (p := CPUInfo.coreID) (fun _ _ => rfl) _ hneeds
        fun c hc => card_freeCores hc
    · exact hsockets
  generalize (if acc1.needs topo.cpusPerCore then _ else acc1) = acc2 at hcores ⊢
  split
  · rename_i hs
    exact hend acc2 hcores hs
  -- single CPUs: all that are left are walked, and they are enough
  obtain ⟨hcpus, hdone⟩ := hcores.claimCPUs (acc2.freeCPUs sorting topo) (nodup_freeCPUs acc2)
    fun c hc => mem_freeCPUs.1 hc
  have hs : (claimCPUs (acc2.freeCPUs sorting topo) acc2).isSatisfied = true := by
    refine hdone.elim id fun hcount => ?_
    have hleft : acc2.details.cpus.card = (topo.cpus ∩ available).card - acc2.result.card := by
      rw [hcores.details_cpus, card_sdiff_of_subset hcores.result_subset, hpool]
    have hneeded := hcores.count
    rw [length_freeCPUs] at hcount
    unfold isSatisfied
    rw [decide_eq_true_eq]
    omega
  rw [if_pos hs]
  exact hend _ hcpus hs

/-- Without enough CPUs nothing is taken. -/
lemma takeByTopology_error {n : Nat} (h : (topo.cpus ∩ available).card < n) :
    ∃ e, takeByTopology sorting topo available n = .error e := by
  have hcard : (CPUAccumulator.new topo available n).details.cpus.card =
      (topo.cpus ∩ available).card := by
    simp [CPUAccumulator.new, CPUDetails.keepOnly, CPUTopology.cpus, filter_mem_eq_inter]
  have hsat : (CPUAccumulator.new topo available n).isSatisfied = false := by
    unfold isSatisfied
    rw [decide_eq_false_iff_not]
    show ¬ (n : Int) < 1
    omega
  have hfail : (CPUAccumulator.new topo available n).isFailed = true := by
    unfold isFailed
    rw [decide_eq_true_eq, hcard]
    show (n : Int) > _
    omega
  unfold takeByTopology
  simp only [hsat, hfail]
  exact ⟨_, rfl⟩

end

end Kubernetes.Kubelet
