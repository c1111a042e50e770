import Kubernetes.NestedMap
import Kubernetes.Scheduler.NodeInfo

/-! # Node names by zone

A model of `internal/cache/node_tree.go`: the names of the nodes of each zone, the
zones in the order in which they appeared, and the number of names.

Results:

1. `zone_addNode`, `zone_removeNode`: what an operation does to the names of a zone;
2. `WellFormed` is kept by every operation;
3. `list_spec`: the round robin over the zones ends without an error, with every name;
4. `list_round_robin`: over every run, it lists every name once, by position and zone.
-/

namespace Kubernetes.Scheduler

open GoMap List AList

structure NodeTree where
  /-- from zone to the names of its nodes -/
  tree : GoMap String (List String)
  zones : List String
  numNodes : Int

/-- "node name in group zone was not found" -/
structure TreeError where
  name : String
  zone : String
deriving DecidableEq

/-- "all zones exhausted before reaching count of nodes expected" -/
inductive ListError where
  | allZonesExhausted
deriving DecidableEq

/-- A label that has an old and a new name; the old one comes first. -/
def labelOr (labels : GoMap String String) (old new : String) : String :=
  match labels.lookup old with
  | some v => v
  | none => (labels.lookup new).getD ""

def getZoneKey (node : Node) : String :=
  let zone := labelOr node.labels "failure-domain.beta.kubernetes.io/zone"
    "topology.kubernetes.io/zone"
  let region := labelOr node.labels "failure-domain.beta.kubernetes.io/region"
    "topology.kubernetes.io/region"
  if region = "" ∧ zone = "" then "" else region ++ ":\x00:" ++ zone

namespace NodeTree

def new : NodeTree := ⟨∅, [], 0⟩

variable (nt : NodeTree)

def addNode (n : Node) : NodeTree :=
  let zone := getZoneKey n
  match nt.tree.lookup zone with
  | some na =>
    if n.name ∈ na then nt
    else
      { nt with
        tree := nt.tree.insert zone (na ++ [n.name])
        numNodes := nt.numNodes + 1 }
  | none =>
    { tree := nt.tree.insert zone [n.name]
      zones := nt.zones ++ [zone]
      numNodes := nt.numNodes + 1 }

def removeZone (zone : String) : NodeTree :=
  { nt with tree := nt.tree.erase zone, zones := nt.zones.erase zone }

def removeNode (n : Node) : NodeTree × Option TreeError :=
  let zone := getZoneKey n
  match nt.tree.lookup zone with
  | some na =>
    if n.name ∈ na then
      let nt := { nt with
        tree := nt.tree.insert zone (na.erase n.name)
        numNodes := nt.numNodes - 1 }
      (if na.erase n.name = [] then nt.removeZone zone else nt, none)
    else (nt, some ⟨n.name, zone⟩)
  | none => (nt, some ⟨n.name, zone⟩)

/-- `updateNode`, for an old node that is not nil. -/
def updateNode (old new : Node) : NodeTree :=
  if getZoneKey old = getZoneKey new then nt
  else (nt.removeNode old).1.addNode new

/-- `nt.tree[zone]` -/
def zone (z : String) : List String := (nt.tree.lookup z).getD []

/-- The inner loop of `list`: one name of every zone that has more than `nodeIndex`. -/
def listRound (nt : NodeTree) (nodeIndex : Nat) :
    List String → List String → Nat → List String × Nat
  | [], nodesList, numExhaustedZones => (nodesList, numExhaustedZones)
  | z :: zs, nodesList, numExhaustedZones =>
    match (nt.zone z)[nodeIndex]? with
    | some name => listRound nt nodeIndex zs (nodesList ++ [name]) numExhaustedZones
    | none =>
      -- counted when the zone is exhausted for the first time
      listRound nt nodeIndex zs nodesList
        (if nodeIndex = (nt.zone z).length then numExhaustedZones + 1 else numExhaustedZones)

/-- The outer loop of `list`; `none` when the fuel runs out. -/
def listLoop (nt : NodeTree) :
    Nat → Nat → List String → Nat → Option (List String × Option ListError)
  | 0, _, _, _ => none
  | fuel + 1, nodeIndex, nodesList, numExhaustedZones =>
    if (nodesList.length : Int) < nt.numNodes then
      if numExhaustedZones ≥ nt.zones.length then some (nodesList, some .allZonesExhausted)
      else
        let r := nt.listRound nodeIndex nt.zones nodesList numExhaustedZones
        nt.listLoop fuel (nodeIndex + 1) r.1 r.2
    else some (nodesList, none)

/-- `list`. The outer loop makes at most one round more than there are names. -/
def list : Option (List String × Option ListError) :=
  if nt.zones.length = 0 then some ([], none)
  else nt.listLoop (nt.numNodes.toNat + 1) 0 [] 0

def names : List String := nt.tree.entries.flatMap fun e => e.2

/-! ## Names and zones -/

variable {nt : NodeTree}

lemma mem_names {x : String} : x ∈ nt.names ↔ ∃ z, x ∈ nt.zone z := by
  unfold names zone
  rw [mem_flatMap]
  constructor
  · rintro ⟨e, he, hx⟩
    have hl : nt.tree.lookup e.1 = some e.2 := mem_dlookup nt.tree.nodupKeys he
    exact ⟨e.1, by rw [hl]; exact hx⟩
  · rintro ⟨z, hx⟩
    cases hl : nt.tree.lookup z with
    | none => simp [hl] at hx
    | some na => exact ⟨⟨z, na⟩, of_mem_dlookup hl, by simpa [hl] using hx⟩

variable (t : GoMap String (List String))

def tableNames : List String := t.entries.flatMap fun e => e.2

lemma tableNames_insert (z : String) (na : List String) :
    tableNames (t.insert z na) = na ++ tableNames (t.erase z) := by
  unfold tableNames
  rw [entries_insert]
  rfl

lemma tableNames_perm (z : String) :
    (tableNames t).Perm ((t.lookup z).getD [] ++ tableNames (t.erase z)) := by
  cases h : t.lookup z with
  | none =>
    rw [erase_of_lookup h]
    exact .refl _
  | some na => exact (entries_perm_of_lookup h).flatMap_right _

variable {z : String} {na : List String}

/-- The zones are the keys of the tree, no zone is empty and no zone has a name
twice, and the names are counted. -/
structure WellFormed (nt : NodeTree) : Prop where
  zones_nodup : nt.zones.Nodup
  mem_zones : ∀ z, z ∈ nt.zones ↔ z ∈ nt.tree
  nodup : ∀ z, (nt.zone z).Nodup
  nonempty : ∀ z na, nt.tree.lookup z = some na → na ≠ []
  numNodes : nt.numNodes = nt.names.length

lemma wellFormed_new : new.WellFormed where
  zones_nodup := nodup_nil
  mem_zones z := by simp [new]
  nodup z := by simp [zone, new]
  nonempty z na h := by simp [new] at h
  numNodes := rfl

lemma zone_of_lookup (h : nt.tree.lookup z = some na) : nt.zone z = na := by
  simp [zone, h]

lemma lookup_of_mem_zone (h : name ∈ nt.zone z) :
    ∃ na, nt.tree.lookup z = some na ∧ name ∈ na := by
  unfold zone at h
  cases hl : nt.tree.lookup z with
  | none => simp [hl] at h
  | some na => exact ⟨na, rfl, by simpa [hl] using h⟩

/-! The cases of the two operations. -/

variable {n : Node}

lemma addNode_present (hn : n.name ∈ nt.zone (getZoneKey n)) : nt.addNode n = nt := by
  rcases lookup_of_mem_zone hn with ⟨na, hl, hna⟩
  simp [addNode, hl, hna]

lemma addNode_absent (hn : n.name ∉ nt.zone (getZoneKey n)) :
    nt.addNode n =
      ⟨nt.tree.insert (getZoneKey n) (nt.zone (getZoneKey n) ++ [n.name]),
        if getZoneKey n ∈ nt.tree then nt.zones else nt.zones ++ [getZoneKey n],
        nt.numNodes + 1⟩ := by
  cases hl : nt.tree.lookup (getZoneKey n) with
  | none => simp [addNode, zone, hl, lookup_eq_none.1 hl]
  | some na =>
    rw [zone_of_lookup hl] at hn ⊢
    simp [addNode, hl, hn, mem_iff_lookup]

lemma removeNode_absent (hn : n.name ∉ nt.zone (getZoneKey n)) :
    nt.removeNode n = (nt, some ⟨n.name, getZoneKey n⟩) := by
  cases hl : nt.tree.lookup (getZoneKey n) with
  | none => simp [removeNode, hl]
  | some na =>
    rw [zone_of_lookup hl] at hn
    simp [removeNode, hl, hn]

lemma removeNode_last (hl : nt.tree.lookup (getZoneKey n) = some na) (hn : n.name ∈ na)
    (hlast : na.erase n.name = []) :
    nt.removeNode n =
      (⟨(nt.tree.insert (getZoneKey n) []).erase (getZoneKey n), nt.zones.erase (getZoneKey n),
        nt.numNodes - 1⟩, none) := by
  simp [removeNode, hl, hn, hlast, removeZone]

lemma removeNode_erase (hl : nt.tree.lookup (getZoneKey n) = some na) (hn : n.name ∈ na)
    (hlast : na.erase n.name ≠ []) :
    nt.removeNode n =
      (⟨nt.tree.insert (getZoneKey n) (na.erase n.name), nt.zones, nt.numNodes - 1⟩, none) := by
  simp [removeNode, hl, hn, hlast]

theorem zone_addNode (nt : NodeTree) (n : Node) (z : String) :
    (nt.addNode n).zone z =
      if z = getZoneKey n ∧ n.name ∉ nt.zone z then nt.zone z ++ [n.name] else nt.zone z := by
  by_cases hn : n.name ∈ nt.zone (getZoneKey n)
  · rw [addNode_present hn, if_neg]
    rintro ⟨rfl, hnot⟩
    exact hnot hn
  · rw [addNode_absent hn]
    by_cases hz : z = getZoneKey n
    · subst hz
      simpa [zone] using hn
    · simp [zone, lookup_insert_ne hz, hz]

theorem zone_removeNode (nt : NodeTree) (n : Node) (z : String) :
    (nt.removeNode n).1.zone z =
      if z = getZoneKey n then (nt.zone z).erase n.name else nt.zone z := by
  by_cases hn : n.name ∈ nt.zone (getZoneKey n)
  · rcases lookup_of_mem_zone hn with ⟨na, hl, hn⟩
    by_cases hlast : na.erase n.name = []
    · -- an emptied zone is dropped
      rw [removeNode_last hl hn hlast]
      by_cases hz : z = getZoneKey n
      · subst hz
        simp [zone, hl, hlast]
      · simp [zone, lookup_insert_ne hz, hz]
    · rw [removeNode_erase hl hn hlast]
      by_cases hz : z = getZoneKey n
      · subst hz
        simp [zone, hl]
      · simp [zone, lookup_insert_ne hz, hz]
  · rw [removeNode_absent hn]
    split_ifs with hz
    · subst hz
      rw [erase_of_not_mem hn]
    · rfl

lemma removeNode_error (nt : NodeTree) (n : Node) :
    (nt.removeNode n).2 = none ↔ n.name ∈ nt.zone (getZoneKey n) := by
  by_cases hn : n.name ∈ nt.zone (getZoneKey n)
  · rcases lookup_of_mem_zone hn with ⟨na, hl, hna⟩
    simp [removeNode, hl, hna, hn]
  · rw [removeNode_absent hn]
    simp [hn]

/-! ## Well-formed trees -/

lemma names_eq (nt : NodeTree) : nt.names = tableNames nt.tree := rfl

variable (h : nt.WellFormed)

include h

lemma WellFormed.setZone {zones : List String} (hne : na ≠ []) (hnd : na.Nodup)
    (hzones : zones.Nodup) (hmem : ∀ z', z' ∈ zones ↔ z' = z ∨ z' ∈ nt.tree) :
    WellFormed ⟨nt.tree.insert z na, zones, nt.numNodes - (nt.zone z).length + na.length⟩ where
  zones_nodup := hzones
  mem_zones z' := by
    rw [hmem, mem_insert]
  nodup z' := by
    by_cases hz : z' = z
    · subst hz
      simpa [zone] using hnd
    · simpa [zone, lookup_insert_ne hz] using h.nodup z'
  nonempty z' ns hns := by
    rw [lookup_insert_if] at hns
    split at hns
    · cases hns
      exact hne
    · exact h.nonempty z' ns hns
  numNodes := by
    have hperm := (tableNames_perm nt.tree z).length_eq
    have hnum := h.numNodes
    rw [names_eq] at hnum ⊢
    rw [tableNames_insert]
    rw [length_append] at hperm ⊢
    unfold zone
    dsimp only
    omega

lemma WellFormed.addNode (n : Node) :
    (nt.addNode n).WellFormed := by
  by_cases hn : n.name ∈ nt.zone (getZoneKey n)
  · rw [addNode_present hn]
    exact h
  rw [addNode_absent hn]
  have hnd : (nt.zone (getZoneKey n) ++ [n.name]).Nodup := by
    simpa using (h.nodup (getZoneKey n)).concat hn
  have hlen : nt.numNodes - (nt.zone (getZoneKey n)).length +
      (nt.zone (getZoneKey n) ++ [n.name]).length = nt.numNodes + 1 := by
    simp only [length_append, length_singleton]
    omega
  rw [← hlen]
  refine h.setZone (by simp) hnd ?_ fun z => ?_
  · split_ifs with hz
    · exact h.zones_nodup
    · rw [← h.mem_zones] at hz
      simpa using h.zones_nodup.concat hz
  · split_ifs with hz
    · rw [h.mem_zones]
      exact ⟨.inr, fun hz' => hz'.elim (· ▸ hz) id⟩
    · rw [mem_append, mem_singleton, h.mem_zones]
      exact or_comm

lemma WellFormed.removeNode (n : Node) :
    (nt.removeNode n).1.WellFormed := by
  by_cases hn : n.name ∈ nt.zone (getZoneKey n)
  · rcases lookup_of_mem_zone hn with ⟨na, hl, hn⟩
    have hnd := h.nodup (getZoneKey n)
    rw [zone_of_lookup hl] at hnd
    have hlen := length_erase_of_mem hn
    have hpos := length_pos_of_mem hn
    by_cases hlast : na.erase n.name = []
    · -- the zone is dropped with its last name
      rw [removeNode_last hl hn hlast]
      rw [erase_insert]
      refine ⟨h.zones_nodup.erase _, fun z => ?_, fun z => ?_, fun z ns hns => ?_, ?_⟩
      · rw [h.zones_nodup.mem_erase_iff, h.mem_zones, mem_erase]
      · by_cases hz : z = getZoneKey n
        · subst hz
          simp [zone]
        · simpa [zone, hz] using h.nodup z
      · rw [lookup_erase_if] at hns
        split_ifs at hns
        exact h.nonempty z ns hns
      · have hperm := (tableNames_perm nt.tree (getZoneKey n)).length_eq
        have hnum := h.numNodes
        rw [names_eq] at hnum ⊢
        rw [hlast] at hlen
        rw [hl, length_append, Option.getD_some] at hperm
        simp only [length_nil] at hlen
        dsimp only
        omega
    · rw [removeNode_erase hl hn hlast]
      have hcount : nt.numNodes - na.length + (na.erase n.name).length = nt.numNodes - 1 := by
        omega
      have hset := h.setZone hlast (hnd.erase n.name) h.zones_nodup fun z => by
        rw [h.mem_zones]
        exact ⟨.inr, fun hz => hz.elim (· ▸ mem_iff_lookup.2 ⟨na, hl⟩) id⟩
      rw [zone_of_lookup hl, hcount] at hset
      exact hset
  · rw [removeNode_absent hn]
    exact h

lemma WellFormed.updateNode (old new : Node) :
    (nt.updateNode old new).WellFormed := by
  unfold NodeTree.updateNode
  split
  · exact h
  · exact (h.removeNode old).addNode new

/-! ## The round robin -/

/-- What the first `j` rounds list. -/
def rounds (nt : NodeTree) (j : Nat) : List String :=
  (List.range j).flatMap fun i => nt.zones.filterMap fun z => (nt.zone z)[i]?

omit h in
lemma listRound_eq (nt : NodeTree) (i : Nat) (zs l : List String) (n : Nat) :
    nt.listRound i zs l n =
      (l ++ zs.filterMap (fun z => (nt.zone z)[i]?),
        n + zs.countP fun z => (nt.zone z).length = i) := by
  induction zs generalizing l n with
  | nil => simp [listRound]
  | cons z zs ih =>
    unfold listRound
    cases hz : (nt.zone z)[i]? with
    | some name =>
      have hlen : (nt.zone z).length ≠ i := by
        have := (List.getElem?_eq_some_iff.1 hz).1
        omega
      dsimp only
      rw [ih]
      simp [hz, hlen]
    | none =>
      rw [ih]
      by_cases hlen : i = (nt.zone z).length
      · have hcount : ((z :: zs).countP fun z => (nt.zone z).length = i) =
            (zs.countP fun z => (nt.zone z).length = i) + 1 :=
          countP_cons_of_pos (by simpa using hlen.symm)
        rw [hcount, if_pos hlen]
        simp only [filterMap_cons, hz, Prod.mk.injEq, true_and]
        omega
      · have hlen' : (nt.zone z).length ≠ i := fun h => hlen h.symm
        simp [hz, hlen, hlen']

omit h in
lemma rounds_succ (nt : NodeTree) (j : Nat) :
    nt.rounds (j + 1) = nt.rounds j ++ nt.zones.filterMap fun z => (nt.zone z)[j]? := by
  simp [rounds, List.range_succ]

omit h in
/-- The rounds list the first names of every zone. -/
lemma rounds_perm (nt : NodeTree) (j : Nat) :
    (nt.rounds j).Perm (nt.zones.flatMap fun z => (nt.zone z).take j) := by
  induction j with
  | zero => simp [rounds]
  | succ j ih =>
    have hround : (nt.zones.filterMap fun z => (nt.zone z)[j]?) =
        nt.zones.flatMap fun z => (nt.zone z)[j]?.toList := filterMap_eq_flatMap_toList _ _
    have htake : (fun z => (nt.zone z).take (j + 1)) =
        fun z => (nt.zone z).take j ++ (nt.zone z)[j]?.toList := by
      funext z
      exact take_add_one
    rw [rounds_succ, hround, htake]
    exact (ih.append_right _).trans (flatMap_append_perm _ _ _)

lemma WellFormed.names_perm :
    (nt.zones.flatMap nt.zone).Perm nt.names := by
  have hkeys : nt.zones.Perm nt.tree.keys := by
    rw [perm_ext_iff_of_nodup h.zones_nodup nt.tree.keys_nodup]
    intro z
    exact h.mem_zones z
  have hnames : nt.names = nt.tree.keys.flatMap nt.zone :=
    (flatMap_lookup_keys nt.tree [] fun _ na => na).symm
  rw [hnames]
  exact hkeys.flatMap_right _

omit h in
lemma flatMap_take_sublist (f : String → List String) (j : Nat) (zs : List String) :
    (zs.flatMap fun z => (f z).take j).Sublist (zs.flatMap f) := by
  exact Sublist.flatMap_right zs fun z _ => take_sublist j (f z)

/-- Zones that are exhausted after `j` rounds. -/
def exhausted (nt : NodeTree) (j : Nat) : Nat :=
  nt.zones.countP fun z => (nt.zone z).length < j

omit h in
lemma exhausted_succ (nt : NodeTree) (j : Nat) :
    nt.exhausted (j + 1) = nt.exhausted j + nt.zones.countP fun z => (nt.zone z).length = j := by
  unfold exhausted
  induction nt.zones with
  | nil => rfl
  | cons z zs ih =>
    simp only [countP_cons, ih, decide_eq_true_eq]
    split_ifs <;> omega

/-- As long as names are missing, some zone has a name for the next round. -/
lemma exists_longer {j : Nat} (hlt : ((nt.rounds j).length : Int) < nt.numNodes) :
    ∃ z ∈ nt.zones, j < (nt.zone z).length := by
  by_contra hno
  have hall : ∀ z ∈ nt.zones, (nt.zone z).take j = nt.zone z := by
    intro z hz
    refine take_of_length_le ?_
    by_contra hj
    exact hno ⟨z, hz, by omega⟩
  have hlen := (nt.rounds_perm j).length_eq
  rw [flatMap_congr hall, h.names_perm.length_eq] at hlen
  have hnum := h.numNodes
  omega

lemma rounds_length_le (j : Nat) :
    (nt.rounds j).length ≤ nt.names.length := by
  rw [(nt.rounds_perm j).length_eq, ← h.names_perm.length_eq]
  exact (flatMap_take_sublist nt.zone j nt.zones).length_le

/-- The outer loop, by induction on the fuel: the rounds made so far have listed at
least as many names as there were rounds. -/
lemma listLoop_spec (fuel j : Nat) (hj : j ≤ (nt.rounds j).length)
    (hfuel : nt.numNodes < fuel + j) :
    ∃ i, nt.listLoop fuel j (nt.rounds j) (nt.exhausted j) = some (nt.rounds i, none) ∧
      (nt.rounds i).Perm nt.names := by
  have hnum := h.numNodes
  have hle := rounds_length_le h j
  induction fuel generalizing j with
  | zero => omega
  | succ fuel ih =>
    unfold listLoop
    by_cases hlt : ((nt.rounds j).length : Int) < nt.numNodes
    · -- another round
      obtain ⟨z, hz, hlong⟩ := exists_longer h hlt
      have hex : ¬ nt.exhausted j ≥ nt.zones.length := by
        intro hge
        have hall := countP_eq_length.1 (le_antisymm countP_le_length hge) z hz
        simp only [decide_eq_true_eq] at hall
        omega
      have hgrow : 1 ≤ (nt.zones.filterMap fun z => (nt.zone z)[j]?).length := by
        refine length_pos_of_mem (a := (nt.zone z)[j]) ?_
        exact mem_filterMap.2 ⟨z, hz, getElem?_eq_getElem hlong⟩
      rw [if_pos hlt, if_neg hex, listRound_eq]
      rw [← rounds_succ, ← exhausted_succ]
      have hj' : j + 1 ≤ (nt.rounds (j + 1)).length := by
        rw [rounds_succ, length_append]
        omega
      exact ih (j + 1) hj' (by push_cast at hfuel ⊢; omega) (rounds_length_le h (j + 1))
    · -- all names are listed
      rw [if_neg hlt]
      refine ⟨j, rfl, ?_⟩
      have hsub := flatMap_take_sublist nt.zone j nt.zones
      have heq : (nt.zones.flatMap fun z => (nt.zone z).take j) = nt.zones.flatMap nt.zone := by
        refine hsub.eq_of_length_le ?_
        rw [h.names_perm.length_eq, ← (nt.rounds_perm j).length_eq]
        omega
      exact (nt.rounds_perm j).trans (heq ▸ h.names_perm)

/-- `list` ends without an error and returns every name as often as it is stored,
in rounds over the zones. -/
theorem list_spec :
    ∃ j, nt.list = some (nt.rounds j, none) ∧ (nt.rounds j).Perm nt.names := by
  unfold list
  split_ifs with hz
  · have hzones : nt.zones = [] := length_eq_zero_iff.1 hz
    refine ⟨0, rfl, ?_⟩
    have hperm := h.names_perm
    rw [hzones] at hperm
    exact hperm
  · have hex : nt.exhausted 0 = 0 := by simp [exhausted]
    have hspec := listLoop_spec h (nt.numNodes.toNat + 1) 0 (Nat.zero_le _) (by omega)
    rw [hex] at hspec
    exact hspec

/-- `x` has a smaller position in its zone than `y`, or the same one in an earlier zone. -/
def Before (nt : NodeTree) (x y : String) : Prop :=
  ∀ (z z' : String) (i i' : Nat), (nt.zone z)[i]? = some x → (nt.zone z')[i']? = some y →
    i < i' ∨ i = i' ∧ nt.zones.idxOf z < nt.zones.idxOf z'

section

variable (hone : ∀ x z z', x ∈ nt.zone z → x ∈ nt.zone z' → z = z')

include hone

/-- Where every name is in one zone only, no name is listed twice. -/
lemma nodup_names : nt.names.Nodup := by
  refine h.names_perm.nodup_iff.1 (nodup_flatMap.2 ⟨fun z _ => h.nodup z, ?_⟩)
  exact h.zones_nodup.imp fun hne x hx hx' => hne (hone x _ _ hx hx')

/-- The rounds list the names by their positions, and within a round by their zones. -/
lemma pairwise_rounds (j : Nat) :
    (nt.rounds j).Pairwise nt.Before := by
  -- a name has one zone and one position
  have hpos : ∀ {x z z' : String} {i i' : Nat}, (nt.zone z)[i]? = some x →
      (nt.zone z')[i']? = some x → z = z' ∧ i = i' := by
    intro x z z' i i' hi hi'
    cases hone x z z' (mem_of_getElem? hi) (mem_of_getElem? hi')
    have hlt := (List.getElem?_eq_some_iff.1 hi).1
    exact ⟨rfl, (getElem?_inj hlt (h.nodup z)).1 (hi.trans hi'.symm)⟩
  have hzones : nt.zones.Pairwise fun z z' => nt.zones.idxOf z < nt.zones.idxOf z' := by
    refine pairwise_iff_getElem.2 fun a b ha hb hab => ?_
    rwa [h.zones_nodup.idxOf_getElem, h.zones_nodup.idxOf_getElem]
  refine pairwise_flatMap.2 ⟨fun i _ => pairwise_filterMap.2 ?_, ?_⟩
  · -- within a round positions are equal, and zones are in order
    refine hzones.imp fun hlt x hx y hy z z' k k' hk hk' => ?_
    rcases hpos hk hx with ⟨rfl, rfl⟩
    rcases hpos hk' hy with ⟨rfl, rfl⟩
    exact .inr ⟨rfl, hlt⟩
  · -- a later round lists a larger position of every zone
    refine pairwise_lt_range.imp fun hlt x hx y hy z z' k k' hk hk' => ?_
    rcases mem_filterMap.1 hx with ⟨a, -, ha⟩
    rcases mem_filterMap.1 hy with ⟨b, -, hb⟩
    rcases hpos hk ha with ⟨rfl, rfl⟩
    rcases hpos hk' hb with ⟨rfl, rfl⟩
    exact .inl hlt

end

omit h

/-! ## Runs -/

def newNodeTree (nodes : List Node) : NodeTree := nodes.foldl NodeTree.addNode new

inductive Op where
  | addNode (n : Node)
  | removeNode (n : Node)
  | updateNode (old : Option Node) (new : Node)

/-- A tree and its calls. Without an old node `updateNode` dereferences nil, unless the new
node has no zone. -/
def machine (nodes : List Node) : Machine NodeTree Op where
  init := newNodeTree nodes
  step nt
    | .addNode n => some (nt.addNode n)
    | .removeNode n => some (nt.removeNode n).1
    | .updateNode (some old) new => some (nt.updateNode old new)
    | .updateNode none new => if getZoneKey new = "" then some nt else none

variable {nodes : List Node} {ops : List Op}

lemma wellFormed_of_reach (hreach : (machine nodes).Reach ops nt) : nt.WellFormed := by
  refine hreach.invariant WellFormed ?_ ?_
  · exact List.foldlRecOn nodes _ wellFormed_new fun _ h n _ => h.addNode n
  rintro nt (n | n | ⟨_ | old, new⟩) nt' h hstep
  · cases hstep
    exact h.addNode n
  · cases hstep
    exact h.removeNode n
  · simp only [machine] at hstep
    split_ifs at hstep
    cases hstep
    exact h
  · cases hstep
    exact h.updateNode old new

/-- Over every run: where no name is in two zones, `list` returns every name once, by
position and then by zone. The zones are the keys of the tree, none of them is empty, and
the names are counted. -/
theorem list_round_robin (hreach : (machine nodes).Reach ops nt)
    (hone : ∀ z ∈ nt.zones, ∀ z' ∈ nt.zones, ∀ x ∈ nt.zone z, x ∈ nt.zone z' → z = z') :
    (∃ l, nt.list = some (l, none) ∧ l.Nodup ∧ (∀ x, x ∈ l ↔ ∃ z, x ∈ nt.zone z) ∧
        l.Pairwise nt.Before) ∧
      nt.zones.Nodup ∧ (∀ z, z ∈ nt.zones ↔ z ∈ nt.tree) ∧
      (∀ z na, nt.tree.lookup z = some na → na ≠ []) ∧ nt.numNodes = nt.names.length := by
  have h := wellFormed_of_reach hreach
  -- a zone that has a name is a key of the tree, so `hone` speaks of all zones
  have hzone : ∀ {x z}, x ∈ nt.zone z → z ∈ nt.zones := by
    intro x z hx
    rcases lookup_of_mem_zone hx with ⟨na, hl, -⟩
    exact (h.mem_zones z).2 (mem_iff_lookup.2 ⟨na, hl⟩)
  have hone' : ∀ x z z', x ∈ nt.zone z → x ∈ nt.zone z' → z = z' :=
    fun x z z' hx hx' => hone z (hzone hx) z' (hzone hx') x hx hx'
  rcases list_spec h with ⟨j, hlist, hperm⟩
  refine ⟨⟨_, hlist, ?_, fun x => ?_, pairwise_rounds h hone' j⟩, h.zones_nodup, h.mem_zones,
    h.nonempty, h.numNodes⟩
  · exact hperm.nodup_iff.2 (nodup_names h hone')
  · rw [hperm.mem_iff, mem_names]

/-- Two zones of different sizes, one of which is emptied and comes back. -/
theorem list_round_robin_three :
    ∃ nt : NodeTree, nt.list = some (["b", "a", "c"], none) ∧ nt.zones.Nodup := by
  let node (name zone : String) : Node :=
    { name := name, labels := AList.singleton "topology.kubernetes.io/zone" zone }
  obtain ⟨nt, hreach, hlist⟩ := (machine [node "a" "x"]).exists_reach
    (fun nt => (nt.list, decide (∀ z ∈ nt.zones, ∀ z' ∈ nt.zones, ∀ x ∈ nt.zone z,
      x ∈ nt.zone z' → z = z')))
    [.addNode (node "b" "y"), .removeNode (node "a" "x"),
      .updateNode (some (node "c" "x")) (node "c" "y"), .addNode (node "a" "x")]
    (some (["b", "a", "c"], none), true) (by decide +kernel)
  obtain ⟨hlist, hone⟩ := Prod.mk.inj hlist
  exact ⟨nt, hlist, (list_round_robin hreach (of_decide_eq_true hone)).2.1⟩

end NodeTree

end Kubernetes.Scheduler
