import Kubernetes.Scheduler.CacheTree

/-! # The scheduler's incremental snapshot

`UpdateSnapshot` copies into an existing snapshot only the node infos whose generation
is newer than the snapshot's: it walks the list of node infos from its head and stops
at the first one that is not newer. The entries are overwritten in place, so that the
lists of pointers have to be rebuilt only if the set of nodes, or the set of those with
affinity pods, changes.

A pointer to a `NodeInfo` of the snapshot is a number, and `heap` is what it points to.

Results:

1. `visited_loop`: the loop over the list copies exactly the newer node infos;
2. `lookup_removeDeleted`: the clean-up removes exactly the names without a node;
3. `updateSnapshot_spec`: `UpdateSnapshot` returns nil and the snapshot is exact.
-/

namespace Kubernetes.Scheduler

open Function GoMap List Option

structure Snapshot where
  heap : Nat → NodeInfo
  /-- the next address that `&framework.NodeInfo{}` yields -/
  nextPtr : Nat
  nodeInfoMap : GoMap String Nat
  nodeInfoList : List Nat
  havePodsWithAffinityNodeInfoList : List Nat
  havePodsWithRequiredAntiAffinityNodeInfoList : List Nat
  generation : Nat

/-- "snapshot state is not consistent", with the lengths it reports. -/
structure SnapshotError where
  nodeInfoList : Nat
  numNodes : Int
  nodeInfoMap : Nat
  nodes : Nat
deriving DecidableEq

variable (s : Snapshot) (name : String)

namespace Snapshot

/-- `NewEmptySnapshot` -/
def new : Snapshot where
  heap _ := .empty
  nextPtr := 0
  nodeInfoMap := ∅
  nodeInfoList := []
  havePodsWithAffinityNodeInfoList := []
  havePodsWithRequiredAntiAffinityNodeInfoList := []
  generation := 0

/-- `nodeInfoMap[name]`, allocated if it is missing, and whether it was missing. -/
def ensureEntry : Snapshot × Nat × Bool :=
  match s.nodeInfoMap.lookup name with
  | some ptr => (s, ptr, false)
  | none =>
    ({ s with
        heap := update s.heap s.nextPtr .empty
        nextPtr := s.nextPtr + 1
        nodeInfoMap := s.nodeInfoMap.insert name s.nextPtr },
      s.nextPtr, true)

/-- `len(nodeInfo.PodsWithAffinity) > 0` -/
def hasAffinity (ptr : Nat) : Bool := !(s.heap ptr).podsWithAffinity.isEmpty

/-- `len(nodeInfo.PodsWithRequiredAntiAffinity) > 0` -/
def hasAntiAffinity (ptr : Nat) : Bool :=
  !(s.heap ptr).podsWithRequiredAntiAffinity.isEmpty

/-- The node info list and its sublists of nodes with affinity pods. -/
def setList (nodeInfoList : List Nat) : Snapshot :=
  { s with
    nodeInfoList := nodeInfoList
    havePodsWithAffinityNodeInfoList := nodeInfoList.filter s.hasAffinity
    havePodsWithRequiredAntiAffinityNodeInfoList := nodeInfoList.filter s.hasAntiAffinity }

end Snapshot

/-- The variables of the loop of `UpdateSnapshot`. -/
structure SnapshotPass where
  snapshot : Snapshot
  updateAllLists : Bool
  updateNodesHavePodsWithAffinity : Bool
  updateNodesHavePodsWithRequiredAntiAffinity : Bool

namespace SchedulerCache

variable (c : SchedulerCache)

/-- The generation of the node info cached under `name`. -/
def generationAt (name : String) : Nat := (c.infoAt name).generation

/-- The body of the loop of `UpdateSnapshot` for the list item `name`. -/
def visit (p : SnapshotPass) (name : String) : SnapshotPass :=
  let info := c.infoAt name
  match info.node with
  | none => p
  | some np =>
    let (s, ptr, missing) := p.snapshot.ensureEntry np.name
    let clone := info.clone
    { snapshot := { s with heap := update s.heap ptr clone }
      updateAllLists := p.updateAllLists || missing
      updateNodesHavePodsWithAffinity := p.updateNodesHavePodsWithAffinity ||
        (s.hasAffinity ptr != !clone.podsWithAffinity.isEmpty)
      updateNodesHavePodsWithRequiredAntiAffinity :=
        p.updateNodesHavePodsWithRequiredAntiAffinity ||
          (s.hasAntiAffinity ptr != !clone.podsWithRequiredAntiAffinity.isEmpty) }

/-- The loop of `removeDeletedNodesFromSnapshot` over the names in the given order. -/
def removeDeleted (c : SchedulerCache) : List String → Int → GoMap String Nat → GoMap String Nat
  | [], _, m => m
  | name :: rest, toDelete, m =>
    if toDelete ≤ 0 then m
    else if c.nodeAt name = none then
      removeDeleted c rest (toDelete - 1) (m.erase name)
    else removeDeleted c rest toDelete m

def removeDeletedNodesFromSnapshot (iter : IterOrder String) (s : Snapshot) : Snapshot :=
  { s with
    nodeInfoMap := c.removeDeleted (iter.order s.nodeInfoMap.keys)
      (s.nodeInfoMap.keys.length - c.nodeTree.numNodes) s.nodeInfoMap }

/-- `updateNodeInfoSnapshotList`; `none` only if listing the tree does not end. -/
def updateNodeInfoSnapshotList (s : Snapshot) (updateAll : Bool) : Option Snapshot :=
  if updateAll then
    c.nodeTree.list.map fun res => s.setList (res.1.filterMap s.nodeInfoMap.lookup)
  else some (s.setList s.nodeInfoList)

/-- The loop of `UpdateSnapshot` over the list of node infos. -/
def copyNewer (s : Snapshot) : SnapshotPass :=
  c.links.forEach (fun name => s.generation < c.generationAt name) c.visit c.nodes.keys.length
    c.links.head ⟨s, false, false, false⟩

/-- The lists are rebuilt if a node came or went, and the affinity lists also if a node
came to have affinity pods or has none any more. -/
def rebuildLists (p : SnapshotPass) (s : Snapshot) (updateAllLists : Bool) : Option Snapshot :=
  if updateAllLists || p.updateNodesHavePodsWithAffinity ||
      p.updateNodesHavePodsWithRequiredAntiAffinity then
    c.updateNodeInfoSnapshotList s updateAllLists
  else some s

/-- The end of `UpdateSnapshot`: a list of the wrong length is rebuilt and reported. -/
def checkLength (s : Snapshot) : Option (Snapshot × Option SnapshotError) :=
  if (s.nodeInfoList.length : Int) ≠ c.nodeTree.numNodes then
    (c.updateNodeInfoSnapshotList s true).map fun s' =>
      (s', some ⟨s.nodeInfoList.length, c.nodeTree.numNodes, s.nodeInfoMap.keys.length,
        c.nodes.keys.length⟩)
  else some (s, none)

def updateSnapshot (s : Snapshot) (iter : IterOrder String) :
    Option (Snapshot × Option SnapshotError) :=
  let p := c.copyNewer s
  let s := { p.snapshot with
    generation := c.links.head.elim p.snapshot.generation c.generationAt }
  let stale : Bool := (s.nodeInfoMap.keys.length : Int) > c.nodeTree.numNodes
  let s := if stale then c.removeDeletedNodesFromSnapshot iter s else s
  (c.rebuildLists p s (p.updateAllLists || stale)).bind c.checkLength

end SchedulerCache

/-! ## Entries -/

namespace Snapshot

/-- The content of `nodeInfoMap[name]`. -/
def entry : Option NodeInfo :=
  (s.nodeInfoMap.lookup name).map s.heap

/-- The pointers of the map are allocated, and no two names share one. -/
structure Entries (s : Snapshot) : Prop where
  fresh : ∀ name ptr, s.nodeInfoMap.lookup name = some ptr → ptr < s.nextPtr
  inj : ∀ name name' ptr, s.nodeInfoMap.lookup name = some ptr →
    s.nodeInfoMap.lookup name' = some ptr → name = name'

/-- The lists hold the entries of the map, and the affinity lists are its sublists. -/
structure Lists (s : Snapshot) : Prop where
  nodup : s.nodeInfoList.Nodup
  mem : ∀ ptr, ptr ∈ s.nodeInfoList ↔ ∃ name, s.nodeInfoMap.lookup name = some ptr
  affinity : s.havePodsWithAffinityNodeInfoList = s.nodeInfoList.filter s.hasAffinity
  antiAffinity :
    s.havePodsWithRequiredAntiAffinityNodeInfoList = s.nodeInfoList.filter s.hasAntiAffinity

/-- The three lists and the generation are the same. -/
structure SameLists (s s' : Snapshot) : Prop where
  nodeInfoList : s'.nodeInfoList = s.nodeInfoList
  affinity : s'.havePodsWithAffinityNodeInfoList = s.havePodsWithAffinityNodeInfoList
  antiAffinity : s'.havePodsWithRequiredAntiAffinityNodeInfoList =
    s.havePodsWithRequiredAntiAffinityNodeInfoList
  generation : s'.generation = s.generation

lemma SameLists.refl : SameLists s s := ⟨rfl, rfl, rfl, rfl⟩

variable {s}

lemma SameLists.trans {s' s'' : Snapshot} (h : SameLists s s') (h' : SameLists s' s'') :
    SameLists s s'' :=
  ⟨h'.nodeInfoList.trans h.nodeInfoList, h'.affinity.trans h.affinity,
    h'.antiAffinity.trans h.antiAffinity, h'.generation.trans h.generation⟩

/-- `ensureEntry` adds at most a fresh pointer for `name`. -/
lemma ensureEntry_spec (h : s.Entries) (name : String) :
    ∃ s' ptr missing, s.ensureEntry name = (s', ptr, missing) ∧ s'.Entries ∧ SameLists s s' ∧
      (∀ n, s'.nodeInfoMap.lookup n = if n = name then some ptr else s.nodeInfoMap.lookup n) ∧
      (∀ n q, s.nodeInfoMap.lookup n = some q →
        s'.nodeInfoMap.lookup n = some q ∧ s'.heap q = s.heap q) ∧
      (missing = false → name ∈ s.nodeInfoMap) := by
  unfold ensureEntry
  cases hl : s.nodeInfoMap.lookup name with
  | some ptr =>
    refine ⟨s, ptr, false, rfl, h, .refl s, fun n => ?_, fun n q hq => ⟨hq, rfl⟩,
      fun _ => mem_iff_lookup.2 ⟨ptr, hl⟩⟩
    split_ifs with hn
    · rw [hn, hl]
    · rfl
  | none =>
    refine ⟨_, s.nextPtr, true, rfl, ⟨fun n q hq => ?_, fun n n' q hq hq' => ?_⟩,
      ⟨rfl, rfl, rfl, rfl⟩, fun n => ?_, fun n q hq => ⟨?_, ?_⟩, fun hf => by cases hf⟩
    · rw [lookup_insert_if] at hq
      split at hq
      · cases hq
        exact Nat.lt_succ_self _
      · exact Nat.lt_succ_of_lt (h.fresh n q hq)
    · -- the new pointer differs from all others
      rw [lookup_insert_if] at hq hq'
      split at hq <;> split at hq'
      · rename_i hn hn'
        rw [hn, hn']
      · cases hq
        exact absurd (h.fresh _ _ hq') (lt_irrefl _)
      · cases hq'
        exact absurd (h.fresh _ _ hq) (lt_irrefl _)
      · exact h.inj n n' q hq hq'
    · exact lookup_insert_if _ _ _ _
    · rw [lookup_insert_if, if_neg]
      · exact hq
      · intro hn
        rw [hn, hl] at hq
        cases hq
    · have hne : q ≠ s.nextPtr := (h.fresh n q hq).ne
      exact update_of_ne hne _ _

lemma Entries.write (h : s.Entries) (ptr : Nat) (info : NodeInfo) :
    Entries { s with heap := update s.heap ptr info } :=
  ⟨h.fresh, h.inj⟩

lemma Entries.entry_write (h : s.Entries) {name : String} {ptr : Nat}
    (hptr : s.nodeInfoMap.lookup name = some ptr) (info : NodeInfo) (n : String) :
    entry { s with heap := update s.heap ptr info } n =
      if n = name then some info else s.entry n := by
  unfold entry
  split_ifs with hn
  · subst hn
    simp [hptr]
  cases hl : s.nodeInfoMap.lookup n with
  | none => rfl
  | some q =>
    have hne : q ≠ ptr := fun hq => hn (h.inj n name q hl (hq ▸ hptr))
    simp [update_of_ne hne]

/-- A write that does not raise the flag for `f` changes `f` nowhere. -/
lemma write_flag {heap : Nat → NodeInfo} {f : NodeInfo → Bool} {ptr : Nat} {info : NodeInfo}
    (hflag : (f (heap ptr) != f info) = false) (q : Nat) :
    f (update heap ptr info q) = f (heap q) := by
  by_cases hq : q = ptr
  · subst hq
    rw [update_self]
    exact (bne_eq_false_iff_eq.1 hflag).symm
  · rw [update_of_ne hq]

end Snapshot

namespace SchedulerCache

open Snapshot

/-- The loop of `UpdateSnapshot`, started on `s`, has visited the items `done`. -/
structure Visited (c : SchedulerCache) (s : Snapshot) (done : List String) (p : SnapshotPass) :
    Prop where
  entries : p.snapshot.Entries
  lists : SameLists s p.snapshot
  entry : ∀ name, p.snapshot.entry name =
    if name ∈ done ∧ (c.nodeAt name).isSome then some (c.infoAt name) else s.entry name
  stable : ∀ name ptr, s.nodeInfoMap.lookup name = some ptr →
    p.snapshot.nodeInfoMap.lookup name = some ptr
  all : p.updateAllLists = false → ∀ name ∈ p.snapshot.nodeInfoMap, name ∈ s.nodeInfoMap
  affinity : p.updateNodesHavePodsWithAffinity = false →
    ∀ name ptr, s.nodeInfoMap.lookup name = some ptr →
      p.snapshot.hasAffinity ptr = s.hasAffinity ptr
  antiAffinity : p.updateNodesHavePodsWithRequiredAntiAffinity = false →
    ∀ name ptr, s.nodeInfoMap.lookup name = some ptr →
      p.snapshot.hasAntiAffinity ptr = s.hasAntiAffinity ptr

variable {s}

lemma visited_nil (c : SchedulerCache) (h : s.Entries) :
    Visited c s [] ⟨s, false, false, false⟩ where
  entries := h
  lists := .refl s
  entry name := by simp
  stable _ _ hl := hl
  all _ _ hmem := hmem
  affinity _ _ _ _ := rfl
  antiAffinity _ _ _ _ := rfl

variable {c : SchedulerCache} {done xs : List String} {p : SnapshotPass}

/-- One list item: its entry is the node info now, unless it is a ghost. -/
lemma Visited.visit (h : Visited c s done p) (hc : c.Agrees) (name : String) :
    Visited c s (done ++ [name]) (c.visit p name) := by
  unfold SchedulerCache.visit
  cases hnode : c.nodeAt name with
  | none =>
    have hinfo : (c.infoAt name).node = none := (c.nodeAt_eq_infoAt name).symm.trans hnode
    dsimp only
    rw [hinfo]
    refine { h with entry := fun n => ?_ }
    rw [h.entry]
    by_cases hn : n = name
    · simp [hn, hnode]
    · simp [hn]
  | some np =>
    have hinfo : (c.infoAt name).node = some np := (c.nodeAt_eq_infoAt name).symm.trans hnode
    have hname : np.name = name := hc.named name np hnode
    obtain ⟨s', ptr, missing, heq, hent, hlists, hlookup, hkeep, hpresent⟩ :=
      ensureEntry_spec h.entries np.name
    dsimp only
    rw [hinfo]
    dsimp only
    rw [heq]
    rw [hname] at hlookup hpresent
    have hptr : s'.nodeInfoMap.lookup name = some ptr := by rw [hlookup, if_pos rfl]
    -- a name of the old snapshot that shares the written pointer is `name`
    have hold : ∀ n q, s.nodeInfoMap.lookup n = some q →
        s'.nodeInfoMap.lookup n = some q ∧ s'.heap q = p.snapshot.heap q :=
      fun n q hq => hkeep n q (h.stable n q hq)
    refine ⟨hent.write ptr _, h.lists.trans ⟨hlists.nodeInfoList, hlists.affinity,
      hlists.antiAffinity, hlists.generation⟩, fun n => ?_, fun n q hq => (hold n q hq).1,
      fun hall n hn => ?_, fun hflag n q hq => ?_, fun hflag n q hq => ?_⟩
    · rw [hent.entry_write hptr, NodeInfo.clone_eq]
      by_cases hn : n = name
      · simp [hn, hnode]
      rw [if_neg hn]
      have hsame : s'.entry n = p.snapshot.entry n := by
        unfold Snapshot.entry
        rw [hlookup, if_neg hn]
        cases hl : p.snapshot.nodeInfoMap.lookup n with
        | none => rfl
        | some q =>
          show some (s'.heap q) = some (p.snapshot.heap q)
          rw [(hkeep n q hl).2]
      rw [hsame, h.entry]
      simp [hn]
    · -- nothing was missing so far, nor now
      rw [Bool.or_eq_false_iff] at hall
      refine h.all hall.1 n ?_
      obtain ⟨q, hq⟩ := mem_iff_lookup.1 hn
      rw [hlookup] at hq
      split at hq
      · rename_i hn
        rw [hn]
        exact hpresent hall.2
      · exact mem_iff_lookup.2 ⟨q, hq⟩
    · rw [Bool.or_eq_false_iff] at hflag
      have hwrite := write_flag (f := fun i => !i.podsWithAffinity.isEmpty) hflag.2 q
      rw [← h.affinity hflag.1 n q hq]
      unfold hasAffinity
      rw [← (hold n q hq).2]
      exact hwrite
    · rw [Bool.or_eq_false_iff] at hflag
      have hwrite := write_flag (f := fun i => !i.podsWithRequiredAntiAffinity.isEmpty) hflag.2 q
      rw [← h.antiAffinity hflag.1 n q hq]
      unfold hasAntiAffinity
      rw [← (hold n q hq).2]
      exact hwrite

theorem visited_loop (hc : c.Agrees) (todo : List String) :
    ∀ {done : List String} {p : SnapshotPass}, Visited c s done p →
      Visited c s (done ++ todo) (todo.foldl c.visit p) := by
  induction todo with
  | nil =>
    intro done p h
    simpa using h
  | cons name rest ih =>
    intro done p h
    have hnext := ih (h.visit hc name)
    rw [append_assoc] at hnext
    exact hnext

/-! ## The list of node infos -/

/-- The linked list holds the cached names `xs`, the newest generation first. -/
structure Ordered (c : SchedulerCache) (xs : List String) : Prop where
  repr : c.links.Repr xs
  mem : ∀ name, name ∈ xs ↔ name ∈ c.nodes
  decreasing : xs.Pairwise fun a b => c.generationAt b < c.generationAt a
  bounded : ∀ name ∈ c.nodes, c.generationAt name ≤ c.generation

/-- In a decreasing list the elements above a bound are those before the first one
that is not. -/
lemma mem_takeWhile_of_decreasing {f : String → Nat} (g : Nat)
    (h : xs.Pairwise fun a b => f b < f a) (x : String) :
    x ∈ xs.takeWhile (fun a => decide (g < f a)) ↔ x ∈ xs ∧ g < f x := by
  induction xs with
  | nil => simp
  | cons y ys ih =>
    obtain ⟨hy, hys⟩ := pairwise_cons.1 h
    by_cases hg : g < f y
    · rw [takeWhile_cons_of_pos (by simpa using hg), mem_cons, mem_cons, ih hys]
      constructor
      · rintro (hx | ⟨hx, hlt⟩)
        · exact ⟨.inl hx, hx ▸ hg⟩
        · exact ⟨.inr hx, hlt⟩
      · rintro ⟨hx | hx, hlt⟩
        · exact .inl hx
        · exact .inr ⟨hx, hlt⟩
    · rw [takeWhile_cons_of_neg (by simpa using hg)]
      constructor
      · intro hx
        cases hx
      -- the elements after `y` are older still
      rintro ⟨hx, hlt⟩
      rcases mem_cons.1 hx with hx | hx
      · exact absurd (hx ▸ hlt) hg
      · exact absurd (hlt.trans (hy x hx)) hg

lemma Ordered.length_le (h : c.Ordered xs) :
    xs.length ≤ c.nodes.keys.length :=
  (h.repr.nodup.subperm fun name hname => (h.mem name).1 hname).length_le

/-- The loop visits the node infos that are newer than the snapshot. -/
lemma Ordered.copyNewer (h : c.Ordered xs) (hc : c.Agrees) (hs : s.Entries) :
    ∃ done, Visited c s done (c.copyNewer s) ∧
      ∀ name, name ∈ done ↔ name ∈ c.nodes ∧ s.generation < c.generationAt name := by
  refine ⟨xs.takeWhile fun name => decide (s.generation < c.generationAt name), ?_, fun name => ?_⟩
  · have hloop := visited_loop (s := s) hc
      (xs.takeWhile fun name => decide (s.generation < c.generationAt name)) (visited_nil c hs)
    unfold SchedulerCache.copyNewer
    rw [Links.forEach_repr h.repr _ _ h.length_le]
    exact hloop
  · rw [mem_takeWhile_of_decreasing _ h.decreasing, h.mem]

/-! ## Deleted nodes -/

/-- The clean-up, started with the number of names without a node, removes them all. -/
theorem lookup_removeDeleted (c : SchedulerCache) (order : List String) (m : GoMap String Nat)
    (n : String) :
    (c.removeDeleted order (order.countP fun name => decide (c.nodeAt name = none)) m).lookup n =
      if n ∈ order ∧ c.nodeAt n = none then none else m.lookup n := by
  induction order generalizing m with
  | nil => simp [removeDeleted]
  | cons name rest ih =>
    set left := rest.countP fun name => decide (c.nodeAt name = none)
    unfold removeDeleted
    by_cases hnode : c.nodeAt name = none
    · -- removed, and one less to remove
      have hcount : ((name :: rest).countP fun name => decide (c.nodeAt name = none)) =
          left + 1 := by
        rw [countP_cons_of_pos (by simpa using hnode)]
      rw [if_neg (by omega), if_pos hnode, hcount]
      have hsub : ((left + 1 : Nat) : Int) - 1 = left := by omega
      rw [hsub, ih, lookup_erase_if]
      by_cases hn : n = name
      · subst hn
        simp [hnode]
      · simp [hn]
    have hcount : ((name :: rest).countP fun name => decide (c.nodeAt name = none)) =
        left := by
      rw [countP_cons_of_neg (by simpa using hnode)]
    rw [hcount, if_neg hnode]
    have hn : (n ∈ name :: rest ∧ c.nodeAt n = none) ↔ (n ∈ rest ∧ c.nodeAt n = none) := by
      rw [mem_cons]
      constructor
      · rintro ⟨hn | hn, hnone⟩
        · exact absurd (hn ▸ hnone) hnode
        · exact ⟨hn, hnone⟩
      · rintro ⟨hn, hnone⟩
        exact ⟨.inr hn, hnone⟩
    simp only [hn]
    split
    · -- none is left to remove
      rename_i hzero
      have hnone : ¬ (n ∈ rest ∧ c.nodeAt n = none) := by
        rintro ⟨hmem, hnone⟩
        have hpos : 0 < left := countP_pos_iff.2 ⟨n, hmem, decide_eq_true hnone⟩
        omega
      rw [if_neg hnone]
    · exact ih m

/-- The names in a map that has all nodes, by whether they have one. -/
lemma countP_deleted {keys : List String} (hnd : keys.Nodup)
    (hlive : ∀ name ∈ c.liveNames, name ∈ keys) :
    keys.countP (fun name => decide (c.nodeAt name = none)) + c.liveNames.length = keys.length := by
  have hperm : (keys.filter fun name => (c.nodeAt name).isSome).Perm c.liveNames := by
    rw [perm_ext_iff_of_nodup (hnd.filter _) c.nodup_liveNames]
    intro name
    rw [mem_filter, mem_liveNames, isSome_iff_exists]
    constructor
    · exact fun h => h.2
    · exact fun h => ⟨hlive name (mem_liveNames.2 h), h⟩
  have hsome : keys.countP (fun name => !decide (c.nodeAt name = none)) = c.liveNames.length := by
    rw [← hperm.length_eq, countP_eq_length_filter]
    congr 1
    refine List.filter_congr fun name _ => ?_
    cases c.nodeAt name <;> rfl
  have hsplit := length_eq_countP_add_countP (l := keys)
    fun name => decide (c.nodeAt name = none)
  simp only [decide_not, Bool.decide_eq_true] at hsplit
  rw [hsplit, hsome]

/-- After the clean-up, if it is needed, the map has the names of the nodes. -/
lemma lookup_after_cleanup (hc : c.Agrees) (iter : IterOrder String)
    (hlive : ∀ name ∈ c.liveNames, name ∈ s.nodeInfoMap) (n : String) :
    (if (s.nodeInfoMap.keys.length : Int) > c.nodeTree.numNodes then
        c.removeDeletedNodesFromSnapshot iter s else s).nodeInfoMap.lookup n =
      if (c.nodeAt n).isSome then s.nodeInfoMap.lookup n else none := by
  have hcount := countP_deleted s.nodeInfoMap.keys_nodup hlive
  have hnum := hc.numNodes
  split
  · unfold removeDeletedNodesFromSnapshot
    have hperm := iter.perm s.nodeInfoMap.keys
    have hto : ((s.nodeInfoMap.keys.length : Int) - c.nodeTree.numNodes) =
        ((iter.order s.nodeInfoMap.keys).countP fun name => decide (c.nodeAt name = none) : Nat) := by
      rw [hperm.countP_eq, hnum]
      omega
    rw [hto, lookup_removeDeleted]
    simp only [hperm.mem_iff]
    cases hn : c.nodeAt n with
    | some node => simp
    | none =>
      by_cases hmem : n ∈ s.nodeInfoMap.keys
      · simp [hmem]
      · have hl : s.nodeInfoMap.lookup n = none := AList.lookup_eq_none.2 hmem
        simp [hmem, hl]
  · -- as many names as nodes: all of them have one
    have hzero : s.nodeInfoMap.keys.countP (fun name => decide (c.nodeAt name = none)) = 0 := by
      omega
    split_ifs with hn
    · rfl
    rw [AList.lookup_eq_none]
    intro hmem
    have hall := countP_eq_zero.1 hzero n hmem
    simp at hn hall
    exact hall hn

/-! ## The lists -/

/-- The map, what it points to and the generation are the same. -/
structure SameEntries (s s' : Snapshot) : Prop where
  heap : s'.heap = s.heap
  nextPtr : s'.nextPtr = s.nextPtr
  nodeInfoMap : s'.nodeInfoMap = s.nodeInfoMap
  generation : s'.generation = s.generation

lemma relist_spec (c : SchedulerCache) (hnd : s.nodeInfoList.Nodup)
    (hmem : ∀ ptr, ptr ∈ s.nodeInfoList ↔ ∃ name, s.nodeInfoMap.lookup name = some ptr) :
    ∃ s', c.updateNodeInfoSnapshotList s false = some s' ∧ s'.Lists ∧ SameEntries s s' :=
  ⟨_, rfl, ⟨hnd, hmem, rfl, rfl⟩, rfl, rfl, rfl, rfl⟩

lemma listAll_spec (hc : c.Agrees) (hs : s.Entries)
    (hkeys : ∀ name, name ∈ s.nodeInfoMap ↔ (c.nodeAt name).isSome) :
    ∃ s', c.updateNodeInfoSnapshotList s true = some s' ∧ s'.Lists ∧ SameEntries s s' := by
  obtain ⟨j, hlist, hperm⟩ := NodeTree.list_spec hc.wellFormed
  have hnames : (c.nodeTree.rounds j).Perm c.liveNames := hperm.trans hc.names_perm
  refine ⟨s.setList ((c.nodeTree.rounds j).filterMap s.nodeInfoMap.lookup), ?_,
    ⟨?_, fun ptr => ?_, rfl, rfl⟩, rfl, rfl, rfl, rfl⟩
  · simp only [updateNodeInfoSnapshotList, hlist, if_true, map_some]
  · have hnd : (c.nodeTree.rounds j).Nodup := hnames.nodup_iff.2 c.nodup_liveNames
    exact hnd.filterMap fun n n' ptr h h' => hs.inj n n' ptr h h'
  show ptr ∈ (c.nodeTree.rounds j).filterMap s.nodeInfoMap.lookup ↔ _
  rw [mem_filterMap]
  constructor
  · rintro ⟨name, -, hl⟩
    exact ⟨name, hl⟩
  · rintro ⟨name, hl⟩
    have hlive : (c.nodeAt name).isSome := (hkeys name).1 (mem_iff_lookup.2 ⟨ptr, hl⟩)
    exact ⟨name, hnames.mem_iff.2 (mem_liveNames.2 (isSome_iff_exists.1 hlive)), hl⟩

lemma length_nodeInfoList (hs : s.Entries) (hl : s.Lists) :
    s.nodeInfoList.length = s.nodeInfoMap.keys.length := by
  have hnd : (s.nodeInfoMap.keys.filterMap fun k => s.nodeInfoMap.lookup k).Nodup :=
    s.nodeInfoMap.keys_nodup.filterMap fun n n' ptr h h' => hs.inj n n' ptr h h'
  have hperm : s.nodeInfoList.Perm (s.nodeInfoMap.keys.filterMap fun k => s.nodeInfoMap.lookup k) := by
    rw [perm_ext_iff_of_nodup hl.nodup hnd]
    intro ptr
    rw [hl.mem, mem_filterMap]
    exact exists_congr fun name => ⟨fun hptr => ⟨mem_iff_lookup.2 ⟨ptr, hptr⟩, hptr⟩, And.right⟩
  rw [hperm.length_eq, filterMap_lookup_keys, length_map, AList.keys, List.keys, length_map]

/-! ## The whole update -/

/-- What the snapshot knows about the cache between two updates. -/
structure Tracks (c : SchedulerCache) (s : Snapshot) : Prop where
  entries : s.Entries
  lists : s.Lists
  generation : s.generation ≤ c.generation
  current : ∀ name, (c.nodeAt name).isSome → c.generationAt name ≤ s.generation →
    ∃ e, s.entry name = some e ∧ NodeInfo.SameCore e (c.infoAt name)

/-- The snapshot is a copy of the cached nodes. -/
structure Exact (c : SchedulerCache) (s : Snapshot) : Prop where
  entries : s.Entries
  lists : s.Lists
  keys : ∀ name, name ∈ s.nodeInfoMap ↔ (c.nodeAt name).isSome
  entry : ∀ name, (c.nodeAt name).isSome →
    ∃ e, s.entry name = some e ∧ NodeInfo.SameCore e (c.infoAt name)

lemma Visited.current (h : Visited c s done p) (ht : c.Tracks s)
    (hdone : ∀ name, name ∈ done ↔ name ∈ c.nodes ∧ s.generation < c.generationAt name)
    (name : String) (hnode : (c.nodeAt name).isSome) :
    ∃ e, p.snapshot.entry name = some e ∧ NodeInfo.SameCore e (c.infoAt name) := by
  rw [h.entry]
  by_cases hold : c.generationAt name ≤ s.generation
  · have hnot : ¬ (name ∈ done ∧ (c.nodeAt name).isSome) := by
      rw [hdone]
      rintro ⟨⟨-, hnew⟩, -⟩
      omega
    rw [if_neg hnot]
    exact ht.current name hnode hold
  · have hmem : name ∈ c.nodes := by
      by_contra hno
      rw [nodeAt_of_not_mem (AList.lookup_eq_none.2 hno)] at hnode
      cases hnode
    rw [if_pos ⟨(hdone name).2 ⟨hmem, by omega⟩, hnode⟩]
    exact ⟨_, rfl, .refl _⟩

lemma cleanup_spec (hc : c.Agrees) (iter : IterOrder String) (hs : s.Entries)
    (hcur : ∀ name, (c.nodeAt name).isSome →
      ∃ e, s.entry name = some e ∧ NodeInfo.SameCore e (c.infoAt name)) {s' : Snapshot}
    (hs' : (if (s.nodeInfoMap.keys.length : Int) > c.nodeTree.numNodes then
      c.removeDeletedNodesFromSnapshot iter s else s) = s') :
    s'.Entries ∧ SameLists s s' ∧ s'.heap = s.heap ∧
      (∀ name, name ∈ s'.nodeInfoMap ↔ (c.nodeAt name).isSome) ∧
      ∀ name, (c.nodeAt name).isSome →
        ∃ e, s'.entry name = some e ∧ NodeInfo.SameCore e (c.infoAt name) := by
  have hmem : ∀ name, (c.nodeAt name).isSome → name ∈ s.nodeInfoMap := by
    intro name hnode
    obtain ⟨e, he, -⟩ := hcur name hnode
    obtain ⟨ptr, hptr, -⟩ := map_eq_some_iff.1 he
    exact mem_iff_lookup.2 ⟨ptr, hptr⟩
  have hlookup : ∀ name, s'.nodeInfoMap.lookup name =
      if (c.nodeAt name).isSome then s.nodeInfoMap.lookup name else none := by
    intro name
    rw [← hs']
    refine lookup_after_cleanup hc iter (fun n hn => hmem n ?_) name
    exact isSome_iff_exists.2 (mem_liveNames.1 hn)
  have hsub : ∀ name ptr, s'.nodeInfoMap.lookup name = some ptr →
      s.nodeInfoMap.lookup name = some ptr := by
    intro name ptr hptr
    rw [hlookup] at hptr
    split_ifs at hptr
    exact hptr
  have hrest : SameLists s s' ∧ s'.heap = s.heap ∧ s'.nextPtr = s.nextPtr := by
    rw [← hs']
    split <;> exact ⟨⟨rfl, rfl, rfl, rfl⟩, rfl, rfl⟩
  refine ⟨⟨fun name ptr hptr => ?_, fun n n' ptr h h' => ?_⟩, hrest.1, hrest.2.1,
    fun name => ?_, fun name hnode => ?_⟩
  · rw [hrest.2.2]
    exact hs.fresh name ptr (hsub name ptr hptr)
  · exact hs.inj n n' ptr (hsub n ptr h) (hsub n' ptr h')
  · rw [mem_iff_lookup, hlookup]
    split_ifs with hnode
    · exact ⟨fun _ => hnode, fun _ => mem_iff_lookup.1 (hmem name hnode)⟩
    · simp [hnode]
  · unfold entry
    rw [hlookup, if_pos hnode, hrest.2.1]
    exact hcur name hnode

/-- Without a flag the lists of the old snapshot are those of the new one. -/
lemma Visited.lists_of_no_flag (h : Visited c s done p) (hl : s.Lists)
    (hall : p.updateAllLists = false) :
    p.snapshot.nodeInfoList.Nodup ∧
      (∀ ptr, ptr ∈ p.snapshot.nodeInfoList ↔
        ∃ name, p.snapshot.nodeInfoMap.lookup name = some ptr) ∧
      (p.updateNodesHavePodsWithAffinity = false →
        p.updateNodesHavePodsWithRequiredAntiAffinity = false → p.snapshot.Lists) := by
  have hnd : p.snapshot.nodeInfoList.Nodup := h.lists.nodeInfoList ▸ hl.nodup
  have hmem : ∀ ptr, ptr ∈ p.snapshot.nodeInfoList ↔
      ∃ name, p.snapshot.nodeInfoMap.lookup name = some ptr := by
    intro ptr
    rw [h.lists.nodeInfoList, hl.mem]
    constructor
    · rintro ⟨name, hptr⟩
      exact ⟨name, h.stable name ptr hptr⟩
    rintro ⟨name, hptr⟩
    -- the name is not new, so it has its old pointer
    have hold := h.all hall name (mem_iff_lookup.2 ⟨ptr, hptr⟩)
    obtain ⟨q, hq⟩ := mem_iff_lookup.1 hold
    have hsame := h.stable name q hq
    rw [hptr] at hsame
    cases hsame
    exact ⟨name, hq⟩
  refine ⟨hnd, hmem, fun haff hanti => ⟨hnd, hmem, ?_, ?_⟩⟩
  · rw [h.lists.affinity, h.lists.nodeInfoList, hl.affinity]
    refine List.filter_congr fun ptr hptr => ?_
    obtain ⟨name, hname⟩ := (hl.mem ptr).1 hptr
    exact (h.affinity haff name ptr hname).symm
  · rw [h.lists.antiAffinity, h.lists.nodeInfoList, hl.antiAffinity]
    refine List.filter_congr fun ptr hptr => ?_
    obtain ⟨name, hname⟩ := (hl.mem ptr).1 hptr
    exact (h.antiAffinity hanti name ptr hname).symm

/-- Rebuilding what has to be rebuilt leaves the lists right. -/
lemma rebuildLists_spec (hc : c.Agrees) {s1 s2 : Snapshot} (hv : Visited c s done p)
    (hl : s.Lists) {g : Nat} (hs1 : { p.snapshot with generation := g } = s1) {stale : Bool}
    (hs2 : stale = false → s2 = s1) (hent : s2.Entries)
    (hkeys : ∀ name, name ∈ s2.nodeInfoMap ↔ (c.nodeAt name).isSome) :
    ∃ s3, c.rebuildLists p s2 (p.updateAllLists || stale) = some s3 ∧ s3.Lists ∧
      SameEntries s2 s3 := by
  unfold rebuildLists
  cases hall : (p.updateAllLists || stale) with
  | true =>
    rw [Bool.true_or, Bool.true_or, if_pos rfl]
    exact listAll_spec hc hent hkeys
  | false =>
    -- no name is new and none was removed
    obtain ⟨hnew, hstale⟩ := Bool.or_eq_false_iff.1 hall
    rw [hs2 hstale, ← hs1]
    obtain ⟨hnd, hmem, hlists⟩ := hv.lists_of_no_flag hl hnew
    split_ifs with hflags
    · exact relist_spec c hnd hmem
    · simp only [Bool.false_or, Bool.or_eq_true, not_or, Bool.not_eq_true] at hflags
      obtain ⟨hnd, hmem, haff, hanti⟩ := hlists hflags.1 hflags.2
      exact ⟨_, rfl, ⟨hnd, hmem, haff, hanti⟩, rfl, rfl, rfl, rfl⟩

lemma length_keys (hkeys : ∀ name, name ∈ s.nodeInfoMap ↔ (c.nodeAt name).isSome) :
    s.nodeInfoMap.keys.length = c.liveNames.length := by
  have hperm : s.nodeInfoMap.keys.Perm c.liveNames := by
    rw [perm_ext_iff_of_nodup s.nodeInfoMap.keys_nodup c.nodup_liveNames]
    intro name
    rw [mem_liveNames, ← isSome_iff_exists]
    exact hkeys name
  exact hperm.length_eq

lemma updateSnapshot_eq {s1 s2 : Snapshot} {iter : IterOrder String} (hp : c.copyNewer s = p)
    (hs1 : { p.snapshot with
      generation := c.links.head.elim p.snapshot.generation c.generationAt } = s1)
    (hs2 : (if (s1.nodeInfoMap.keys.length : Int) > c.nodeTree.numNodes then
      c.removeDeletedNodesFromSnapshot iter s1 else s1) = s2) :
    c.updateSnapshot s iter =
      (c.rebuildLists p s2 (p.updateAllLists ||
        decide ((s1.nodeInfoMap.keys.length : Int) > c.nodeTree.numNodes))).bind c.checkLength := by
  subst hp hs1 hs2
  simp only [updateSnapshot, decide_eq_true_eq]

/-- `UpdateSnapshot` on a snapshot that tracks the cache returns nil and leaves an exact
copy, which tracks the cache. -/
theorem updateSnapshot_spec (hx : c.Ordered xs) (hc : c.Agrees) (ht : c.Tracks s)
    (iter : IterOrder String) :
    ∃ s', c.updateSnapshot s iter = some (s', none) ∧ c.Exact s' ∧ c.Tracks s' := by
  obtain ⟨done, hv, hdone⟩ := hx.copyNewer hc ht.entries
  have hcur := hv.current ht hdone
  obtain ⟨p, hp⟩ : ∃ p, c.copyNewer s = p := ⟨_, rfl⟩
  rw [hp] at hv hcur
  -- after the loop
  obtain ⟨s1, hs1⟩ : ∃ s1 : Snapshot, { p.snapshot with
    generation := c.links.head.elim p.snapshot.generation c.generationAt } = s1 := ⟨_, rfl⟩
  have hgen : s1.generation ≤ c.generation := by
    rw [← hs1]
    cases hh : c.links.head with
    | none =>
      show p.snapshot.generation ≤ c.generation
      rw [hv.lists.generation]
      exact ht.generation
    | some name =>
      have hmem : name ∈ xs := by
        rw [hx.repr.head] at hh
        exact mem_of_mem_head? hh
      exact hx.bounded name ((hx.mem name).1 hmem)
  have hentries1 : s1.Entries := by
    rw [← hs1]
    exact ⟨hv.entries.fresh, hv.entries.inj⟩
  have hcurrent1 : ∀ name, (c.nodeAt name).isSome →
      ∃ e, s1.entry name = some e ∧ NodeInfo.SameCore e (c.infoAt name) := by
    rw [← hs1]
    exact hcur
  -- after the clean-up
  obtain ⟨s2, hs2⟩ : ∃ s2, (if (s1.nodeInfoMap.keys.length : Int) > c.nodeTree.numNodes then
    c.removeDeletedNodesFromSnapshot iter s1 else s1) = s2 := ⟨_, rfl⟩
  obtain ⟨hentries2, hlists2, -, hkeys2, hcurrent2⟩ := cleanup_spec hc iter hentries1 hcurrent1 hs2
  have hstale : decide ((s1.nodeInfoMap.keys.length : Int) > c.nodeTree.numNodes) = false →
      s2 = s1 := by
    intro hstale
    rw [← hs2, if_neg (of_decide_eq_false hstale)]
  -- after the lists
  obtain ⟨s3, heq, hlists, hsame⟩ :=
    rebuildLists_spec hc hv ht.lists hs1 hstale hentries2 hkeys2
  have hentries3 : s3.Entries := by
    refine ⟨?_, ?_⟩
    · rw [hsame.nodeInfoMap, hsame.nextPtr]
      exact hentries2.fresh
    · rw [hsame.nodeInfoMap]
      exact hentries2.inj
  have hkeys3 : ∀ name, name ∈ s3.nodeInfoMap ↔ (c.nodeAt name).isSome := by
    rw [hsame.nodeInfoMap]
    exact hkeys2
  have hcurrent3 : ∀ name, (c.nodeAt name).isSome →
      ∃ e, s3.entry name = some e ∧ NodeInfo.SameCore e (c.infoAt name) := by
    unfold entry
    rw [hsame.nodeInfoMap, hsame.heap]
    exact hcurrent2
  have hlength : (s3.nodeInfoList.length : Int) = c.nodeTree.numNodes := by
    rw [length_nodeInfoList hentries3 hlists, length_keys hkeys3, hc.numNodes]
  refine ⟨s3, ?_, ⟨hentries3, hlists, hkeys3, hcurrent3⟩, hentries3, hlists, ?_,
    fun name hnode _ => hcurrent3 name hnode⟩
  · rw [updateSnapshot_eq hp hs1 hs2, heq, bind_some, checkLength, if_neg (not_not.2 hlength)]
  · rw [hsame.generation, hlists2.generation]
    exact hgen

end SchedulerCache

end Kubernetes.Scheduler
