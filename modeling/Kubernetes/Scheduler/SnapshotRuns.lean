import Kubernetes.Scheduler.Snapshot

/-! # Snapshots along a run of the scheduler

The scheduler interleaves calls on the cache with updates of one snapshot. Between two
updates the snapshot only has to know which of its entries are still current, and the
generations say so: `Advances` is what a call may do to the node infos without the
snapshot losing track, that is, change a node info only together with its generation.

Results:

1. `PodSteps.advances`, `addNode_advances`, `updateNode_advances`,
   `removeNode_advances`: every call advances the cache, and keeps the list of node
   infos in the order of the generations;
2. `snapshot_exact`: over every run each `UpdateSnapshot` returns nil and leaves an
   exact copy of the cached nodes.
-/

namespace Kubernetes.Scheduler

open GoMap AList

namespace SchedulerCache

/-! ## Generations -/

lemma infoAt_touch_self (c : SchedulerCache) (name : String) (info : NodeInfo) :
    (c.touch name info).infoAt name = info := by
  simp [infoAt, touch]

variable {c c' : SchedulerCache} {name : String}

lemma infoAt_touch_of_mem {name' : String} (info : NodeInfo) (hne : name' ≠ name)
    (hmem : name' ∈ c.nodes) :
    (c.touch name info).infoAt name' = c.infoAt name' := by
  obtain ⟨i, hi⟩ := mem_iff_lookup.1 hmem
  simp [infoAt, touch, lookup_insert_ne hne, hi]

lemma infoAt_dropItem_of_mem {name' : String} (g : Nat) (hne : name' ≠ name)
    (hmem : name' ∈ c.nodes) :
    (c.dropItem name g).infoAt name' = c.infoAt name' := by
  obtain ⟨i, hi⟩ := mem_iff_lookup.1 hmem
  simp [infoAt, dropItem, lookup_erase_ne hne, hi]

lemma mem_of_nodeAt (h : (c.nodeAt name).isSome) :
    name ∈ c.nodes := by
  by_contra hno
  rw [nodeAt_of_not_mem (lookup_eq_none.2 hno)] at h
  cases h

variable {xs : List String} {info : NodeInfo}

/-- The item of a touched node info goes to the head, where the newest one belongs. -/
lemma Ordered.touch (h : c.Ordered xs) (name : String) (hgen : c.generation < info.generation) :
    (c.touch name info).Ordered (name :: xs.erase name) := by
  have hother : ∀ x ∈ xs.erase name, x ≠ name ∧ x ∈ xs := by
    intro x hx
    exact (h.repr.nodup.mem_erase_iff).1 hx
  have hsame : ∀ x ∈ xs.erase name, (c.touch name info).generationAt x = c.generationAt x := by
    intro x hx
    obtain ⟨hne, hmem⟩ := hother x hx
    unfold generationAt
    rw [infoAt_touch_of_mem info hne ((h.mem x).1 hmem)]
  have hself : (c.touch name info).generationAt name = info.generation := by
    unfold generationAt
    rw [infoAt_touch_self]
  refine ⟨?_, fun x => ?_, ?_, fun x hx => ?_⟩
  · show ((c.linksFor name).moveToHead name).Repr (name :: xs.erase name)
    unfold linksFor
    by_cases hmem : name ∈ c.nodes
    · rw [if_pos hmem]
      exact Links.moveToHead_repr h.repr ((h.mem name).2 hmem)
    -- a new item
    have hnot : name ∉ xs := fun hx => hmem ((h.mem name).1 hx)
    rw [if_neg hmem, List.erase_of_not_mem hnot]
    exact Links.moveToHead_repr_of_not_mem (Links.alloc_repr h.repr hnot) hnot
      (by simp [Links.alloc]) (by simp [Links.alloc])
  · show x ∈ name :: xs.erase name ↔ x ∈ c.nodes.insert name info
    rw [mem_insert, List.mem_cons, h.repr.nodup.mem_erase_iff, h.mem]
    tauto
  · refine List.pairwise_cons.2 ⟨fun x hx => ?_, ?_⟩
    · rw [hself, hsame x hx]
      have hold := h.bounded x ((h.mem x).1 (hother x hx).2)
      omega
    · have hrest := h.decreasing.sublist (List.erase_sublist (a := name))
      refine hrest.imp_of_mem fun {a b} ha hb hab => ?_
      rw [hsame a ha, hsame b hb]
      exact hab
  · show (c.touch name info).generationAt x ≤ info.generation
    by_cases hx' : x = name
    · rw [hx', hself]
    have hmem : x ∈ c.nodes := (mem_insert _).1 hx |>.resolve_left hx'
    have hold := h.bounded x hmem
    unfold generationAt at hold ⊢
    rw [infoAt_touch_of_mem info hx' hmem]
    omega

lemma Ordered.dropItem (h : c.Ordered xs) (hmem : name ∈ c.nodes) {g : Nat}
    (hgen : c.generation ≤ g) :
    (c.dropItem name g).Ordered (xs.erase name) := by
  have hother : ∀ x ∈ xs.erase name, x ≠ name ∧ x ∈ xs := by
    intro x hx
    exact (h.repr.nodup.mem_erase_iff).1 hx
  have hsame : ∀ x ∈ xs.erase name, (c.dropItem name g).generationAt x = c.generationAt x := by
    intro x hx
    obtain ⟨hne, hx'⟩ := hother x hx
    unfold generationAt
    rw [infoAt_dropItem_of_mem g hne ((h.mem x).1 hx')]
  refine ⟨Links.remove_repr h.repr ((h.mem name).2 hmem), fun x => ?_, ?_, fun x hx => ?_⟩
  · show x ∈ xs.erase name ↔ x ∈ c.nodes.erase name
    rw [mem_erase, h.repr.nodup.mem_erase_iff, h.mem]
  · have hrest := h.decreasing.sublist (List.erase_sublist (a := name))
    refine hrest.imp_of_mem fun {a b} ha hb hab => ?_
    rw [hsame a ha, hsame b hb]
    exact hab
  · obtain ⟨hne, hx'⟩ := mem_erase.1 hx
    have hold := h.bounded x hx'
    show (c.dropItem name g).generationAt x ≤ g
    unfold generationAt at hold ⊢
    rw [infoAt_dropItem_of_mem g hne hx']
    omega

lemma Ordered.congr (h : c.Ordered xs) (hlinks : c'.links = c.links)
    (hmem : ∀ x, x ∈ c'.nodes ↔ x ∈ c.nodes)
    (hat : ∀ x ∈ c.nodes, c'.generationAt x = c.generationAt x)
    (hgen : c'.generation = c.generation) : c'.Ordered xs := by
  refine ⟨hlinks ▸ h.repr, fun x => (h.mem x).trans (hmem x).symm, ?_, fun x hx => ?_⟩
  · refine h.decreasing.imp_of_mem fun {a b} ha hb hab => ?_
    rw [hat a ((h.mem a).1 ha), hat b ((h.mem b).1 hb)]
    exact hab
  · have hx' := (hmem x).1 hx
    rw [hat x hx', hgen]
    exact h.bounded x hx'

/-! ## Calls -/

/-- The list keeps its order, and a node info whose generation is not new is the one
that was there. -/
structure Advances (c c' : SchedulerCache) : Prop where
  ordered : ∀ {xs}, c.Ordered xs → ∃ xs', c'.Ordered xs'
  generation : c.generation ≤ c'.generation
  old : ∀ name, (c'.nodeAt name).isSome → c'.generationAt name ≤ c.generation →
    (c.nodeAt name).isSome ∧ c.generationAt name = c'.generationAt name ∧
      NodeInfo.SameCore (c.infoAt name) (c'.infoAt name)

lemma Advances.refl (c : SchedulerCache) : Advances c c :=
  ⟨fun h => ⟨_, h⟩, le_rfl, fun _ hnode _ => ⟨hnode, rfl, .refl _⟩⟩

lemma Advances.trans {c'' : SchedulerCache} (h : Advances c c') (h' : Advances c' c'') :
    Advances c c'' := by
  refine ⟨fun hx => ?_, h.generation.trans h'.generation, fun name hnode hgen => ?_⟩
  · obtain ⟨xs', hx'⟩ := h.ordered hx
    exact h'.ordered hx'
  · obtain ⟨hnode', hgen', hsame'⟩ := h'.old name hnode (hgen.trans h.generation)
    obtain ⟨hnode0, hgen0, hsame0⟩ := h.old name hnode' (hgen'.trans_le hgen)
    exact ⟨hnode0, hgen0.trans hgen', hsame0.trans hsame'⟩

/-- The tree, the images and the books are of no account here. -/
lemma Advances.of_sameNodes {c'' : SchedulerCache} (h : Advances c c')
    (hnodes : c''.nodes = c'.nodes) (hlinks : c''.links = c'.links)
    (hgen : c''.generation = c'.generation) : Advances c c'' := by
  have hinfo : ∀ name, c''.infoAt name = c'.infoAt name := by
    intro name
    unfold infoAt
    rw [hnodes, hgen]
  have hat : ∀ name, c''.generationAt name = c'.generationAt name := by
    intro name
    unfold generationAt
    rw [hinfo]
  have hnode : ∀ name, c''.nodeAt name = c'.nodeAt name := by
    intro name
    unfold nodeAt
    rw [hnodes]
  refine ⟨fun hx => ?_, hgen ▸ h.generation, fun name hn hg => ?_⟩
  · obtain ⟨xs', hx'⟩ := h.ordered hx
    exact ⟨xs', hx'.congr hlinks (fun x => by rw [hnodes]) (fun x _ => hat x) hgen⟩
  rw [hnode] at hn
  rw [hat] at hg
  rw [hat, hinfo]
  exact h.old name hn hg

lemma advances_touch (c : SchedulerCache) (name : String)
    (hgen : c.generation < info.generation) : Advances c (c.touch name info) := by
  refine ⟨fun hx => ⟨_, hx.touch name hgen⟩, hgen.le, fun name' hnode hold => ?_⟩
  have hne : name' ≠ name := by
    intro hname
    unfold generationAt at hold
    rw [hname, infoAt_touch_self] at hold
    omega
  rw [nodeAt_touch, if_neg hne] at hnode
  have hinfo := infoAt_touch_of_mem info hne (mem_of_nodeAt hnode)
  refine ⟨hnode, ?_, ?_⟩
  · unfold generationAt
    rw [hinfo]
  · rw [hinfo]
    exact .refl _

lemma advances_dropItem (hmem : name ∈ c.nodes) {g : Nat} (hgen : c.generation ≤ g) :
    Advances c (c.dropItem name g) := by
  refine ⟨fun hx => ⟨_, hx.dropItem hmem hgen⟩, hgen, fun name' hnode _ => ?_⟩
  rw [nodeAt_dropItem] at hnode
  split_ifs at hnode with hne
  · cases hnode
  have hinfo := infoAt_dropItem_of_mem g hne (mem_of_nodeAt hnode)
  refine ⟨hnode, ?_, ?_⟩
  · unfold generationAt
    rw [hinfo]
  · rw [hinfo]
    exact .refl _

/-- The affinity slices of a node info may change without a new generation. -/
lemma advances_setInfo {info' : NodeInfo} (hl : c.nodes.lookup name = some info)
    (hsame : NodeInfo.SameCore info' info) (hgen : info'.generation = info.generation) :
    Advances c (c.setInfo name info') := by
  have hinfo : ∀ x, (c.setInfo name info').infoAt x =
      if x = name then info' else c.infoAt x := by
    intro x
    unfold infoAt setInfo
    rw [lookup_insert_if]
    split <;> rfl
  have hat : ∀ x, (c.setInfo name info').generationAt x = c.generationAt x := by
    intro x
    unfold generationAt
    rw [hinfo]
    split_ifs with hx
    · rw [hx, infoAt_of_lookup hl, hgen]
    · rfl
  have hcore : ∀ x, NodeInfo.SameCore (c.infoAt x) ((c.setInfo name info').infoAt x) := by
    intro x
    rw [hinfo]
    split_ifs with hx
    · rw [hx, infoAt_of_lookup hl]
      exact ⟨hsame.node.symm, hsame.pods.symm, hsame.usedPorts.symm, hsame.requested.symm,
        hsame.nonZeroRequested.symm, hsame.allocatable.symm, hsame.imageStates.symm⟩
    · exact .refl _
  refine ⟨fun hx => ⟨_, hx.congr rfl (fun x => ?_) (fun x _ => hat x) rfl⟩, le_rfl,
    fun x hnode _ => ⟨?_, (hat x).symm, hcore x⟩⟩
  · show x ∈ c.nodes.insert name info' ↔ x ∈ c.nodes
    rw [mem_insert]
    constructor
    · rintro (hx | hx)
      · exact hx ▸ mem_of_lookup hl
      · exact hx
    · exact .inr
  · rw [nodeAt_eq_infoAt, (hcore x).node, ← nodeAt_eq_infoAt]
    exact hnode

theorem PodStep.advances (h : PodStep c c') : Advances c c' := by
  cases h with
  | books h => exact (Advances.refl c).of_sameNodes h.nodes h.links h.generation
  | touch name info hnode hgen => exact advances_touch c name hgen
  | drop name info hl hnode => exact advances_dropItem (mem_of_lookup hl) (Nat.le_succ _)
  | slices name info info' hl hsame hgen => exact advances_setInfo hl hsame hgen

theorem PodSteps.advances (h : PodSteps c c') : Advances c c' := by
  induction h with
  | refl => exact .refl c
  | tail _ hstep ih => exact ih.trans hstep.advances

variable (cfg : Config)

theorem addNode_advances (c : SchedulerCache) (node : Node) :
    Advances c (c.addNode cfg node) := by
  rw [addNode_eq]
  have hgen : c.generation < (c.withNode cfg node).generation :=
    c.generation_lt_nextGeneration node.name
  exact (advances_touch c node.name hgen).of_sameNodes rfl rfl rfl

theorem updateNode_advances (c : SchedulerCache) (oldNode newNode : Node) :
    Advances c (c.updateNode cfg oldNode newNode) := by
  rw [updateNode_eq]
  have hgen : c.generation < (c.withNode cfg newNode).generation :=
    c.generation_lt_nextGeneration newNode.name
  exact (advances_touch c newNode.name hgen).of_sameNodes rfl rfl rfl

theorem removeNode_advances (c : SchedulerCache) (node : Node) :
    Advances c (c.removeNode node).1 := by
  cases hl : c.nodes.lookup node.name with
  | none =>
    have heq : (c.removeNode node).1 = c := by simp [removeNode, hl]
    rw [heq]
    exact .refl c
  | some info =>
    rw [removeNode_eq hl]
    have hghost : Advances c (c.ghosted node.name info) := by
      unfold ghosted
      split
      · exact advances_dropItem (mem_of_lookup hl) (Nat.le_succ _)
      · exact advances_touch c node.name (Nat.lt_succ_self _)
    exact hghost.of_sameNodes rfl rfl rfl

lemma exec_advances {op : Op} {err : Option CacheError} (h : c.exec cfg op = .ok (c', err)) :
    Advances c c' := by
  by_cases hpods : op.onPods = true
  · exact (exec_podSteps cfg hpods h).advances
  cases op with
  | addNode node =>
    cases h
    exact addNode_advances cfg c node
  | updateNode oldNode newNode =>
    cases h
    exact updateNode_advances cfg c oldNode newNode
  | removeNode node =>
    have hres : c' = (c.removeNode node).1 := (congrArg Prod.fst (Except.ok.inj h)).symm
    rw [hres]
    exact removeNode_advances c node
  | _ => exact absurd rfl hpods

lemma Tracks.advance {s : Snapshot} (h : c.Tracks s) (ha : Advances c c') : c'.Tracks s := by
  refine ⟨h.entries, h.lists, h.generation.trans ha.generation, fun name hnode hgen => ?_⟩
  obtain ⟨hnode0, hgen0, hsame⟩ := ha.old name hnode (hgen.trans h.generation)
  obtain ⟨e, he, hcore⟩ := h.current name hnode0 (hgen0.trans_le hgen)
  exact ⟨e, he, hcore.trans hsame⟩

end SchedulerCache

/-! ## Runs -/

open SchedulerCache

/-- The cache with its informer, and the snapshot that the scheduling loop keeps. -/
structure Scheduling where
  fed : Fed
  snapshot : Snapshot

namespace Scheduling

inductive Event where
  | call (op : Op)
  | updateSnapshot (iter : IterOrder String)

variable (cfg : Config)

def machine (ttl : Int) : Machine Scheduling Event where
  init := ⟨⟨.new ttl, ∅⟩, .new⟩
  step s
    | .call op =>
      match deliver s.fed.delivered op, s.fed.cache.exec cfg op with
      | some delivered, .ok (cache, _) => some { s with fed := ⟨cache, delivered⟩ }
      | _, _ => none
    | .updateSnapshot iter =>
      (s.fed.cache.updateSnapshot s.snapshot iter).map fun res => { s with snapshot := res.1 }

/-- The list is ordered by generation, and the snapshot has what is not newer than it. -/
structure Inv (s : Scheduling) : Prop where
  fed : s.fed.Inv
  live : ∀ name node, s.fed.delivered.lookup name = some node →
    s.fed.cache.nodeAt name = some node
  ordered : ∃ xs, s.fed.cache.Ordered xs
  tracks : s.fed.cache.Tracks s.snapshot

lemma inv_init (ttl : Int) : (machine cfg ttl).init.Inv where
  fed := Fed.inv_init cfg ttl
  live name node h := by simp [machine] at h
  ordered := by
    refine ⟨[], Links.empty_repr, fun name => ?_, List.Pairwise.nil, fun name hmem => ?_⟩
    · simp [machine, SchedulerCache.new]
    · simp [machine, SchedulerCache.new] at hmem
  tracks := by
    refine ⟨⟨fun name ptr h => ?_, fun name name' ptr h => ?_⟩, ⟨List.nodup_nil, fun ptr => ?_, rfl,
      rfl⟩, le_rfl, fun name hnode => ?_⟩
    · simp [machine, Snapshot.new] at h
    · simp [machine, Snapshot.new] at h
    · simp [machine, Snapshot.new]
    · simp [machine, nodeAt, SchedulerCache.new] at hnode

variable {cfg} {s : Scheduling}

/-- Without removals behind its back, the informer knows the cached nodes. -/
lemma Inv.live_call (h : s.Inv) {op : Op} {cache : SchedulerCache} {delivered : GoMap String Node}
    {err : Option CacheError} (hd : deliver s.fed.delivered op = some delivered)
    (hexec : s.fed.cache.exec cfg op = .ok (cache, err)) {name : String} {node : Node}
    (hl : delivered.lookup name = some node) : cache.nodeAt name = some node := by
  rcases nodeAt_deliver cfg hd hexec name with ⟨hcache, hlast⟩ | hsame
  · rw [hcache]
    exact h.live name node (hlast.symm.trans hl)
  · exact hsame.trans hl

lemma Inv.matching (h : s.Inv) {op : Op} {delivered : GoMap String Node}
    (hd : deliver s.fed.delivered op = some delivered) : s.fed.Matching (.call op) := by
  cases op with
  | updateNode oldNode newNode =>
    intro _ hnone
    simp only [deliver] at hd
    split_ifs at hd with hold
    rw [h.live _ _ hold] at hnone
    cases hnone
  | _ => trivial

lemma Inv.step {ttl : Int} {s' : Scheduling} {e : Event} (h : s.Inv)
    (hstep : (machine cfg ttl).step s e = some s') : s'.Inv := by
  cases e with
  | call op =>
    simp only [machine] at hstep
    split at hstep
    · rename_i hd hexec
      cases hstep
      have hadv := exec_advances cfg hexec
      obtain ⟨xs, hx⟩ := h.ordered
      exact ⟨h.fed.call (h.matching hd) hd hexec, fun name node => h.live_call hd hexec,
        hadv.ordered hx, h.tracks.advance hadv⟩
    · cases hstep
  | updateSnapshot iter =>
    obtain ⟨xs, hx⟩ := h.ordered
    obtain ⟨snap, heq, -, htracks⟩ := updateSnapshot_spec hx h.fed.agrees h.tracks iter
    simp only [machine, heq, Option.map_some] at hstep
    cases hstep
    exact ⟨h.fed, h.live, h.ordered, htracks⟩

variable (cfg)

/-- In every run of informer-ordered node events, arbitrary pod calls and updates of one
snapshot, every `UpdateSnapshot` returns nil, and the snapshot is then a full copy: its
map has the names of the cached nodes, each entry is the current node info, the list has
every entry once, and the affinity lists are its sublists. -/
theorem snapshot_exact {ttl : Int} {tr : List Event} {s : Scheduling}
    (h : (machine cfg ttl).Reach tr s) (iter : IterOrder String) :
    ∃ snap, s.fed.cache.updateSnapshot s.snapshot iter = some (snap, none) ∧
      (∀ name, name ∈ snap.nodeInfoMap ↔
        ∃ info, s.fed.cache.nodes.lookup name = some info ∧ info.node ≠ none) ∧
      (∀ name ptr info, snap.nodeInfoMap.lookup name = some ptr →
        s.fed.cache.nodes.lookup name = some info →
          (snap.heap ptr).node = info.node ∧ (snap.heap ptr).pods = info.pods ∧
          (snap.heap ptr).requested = info.requested ∧
          (snap.heap ptr).nonZeroRequested = info.nonZeroRequested ∧
          (snap.heap ptr).usedPorts = info.usedPorts ∧
          (snap.heap ptr).allocatable = info.allocatable) ∧
      snap.nodeInfoList.Nodup ∧
      (∀ ptr, ptr ∈ snap.nodeInfoList ↔ ∃ name, snap.nodeInfoMap.lookup name = some ptr) ∧
      (∀ name name' ptr, snap.nodeInfoMap.lookup name = some ptr →
        snap.nodeInfoMap.lookup name' = some ptr → name = name') ∧
      snap.havePodsWithAffinityNodeInfoList =
        snap.nodeInfoList.filter (fun ptr => (snap.heap ptr).podsWithAffinity ≠ []) ∧
      snap.havePodsWithRequiredAntiAffinityNodeInfoList =
        snap.nodeInfoList.filter (fun ptr => (snap.heap ptr).podsWithRequiredAntiAffinity ≠ []) := by
  have hinv : s.Inv := h.invariant Inv (inv_init cfg ttl) fun _ _ _ hi hs => hi.step hs
  obtain ⟨xs, hx⟩ := hinv.ordered
  obtain ⟨snap, heq, hexact, -⟩ := updateSnapshot_spec hx hinv.fed.agrees hinv.tracks iter
  refine ⟨snap, heq, fun name => ?_, fun name ptr info hptr hl => ?_, hexact.lists.nodup,
    hexact.lists.mem, hexact.entries.inj, ?_, ?_⟩
  · rw [hexact.keys, nodeAt]
    cases s.fed.cache.nodes.lookup name with
    | none => simp
    | some info => simp [Option.isSome_iff_ne_none]
  · have hmem := mem_iff_lookup.2 ⟨ptr, hptr⟩
    obtain ⟨e, he, hsame⟩ := hexact.entry name ((hexact.keys name).1 hmem)
    have hentry : snap.heap ptr = e := by
      rw [Snapshot.entry, hptr] at he
      exact Option.some.inj he
    rw [infoAt_of_lookup hl] at hsame
    rw [hentry]
    exact ⟨hsame.node, hsame.pods, hsame.requested, hsame.nonZeroRequested, hsame.usedPorts,
      hsame.allocatable⟩
  · rw [hexact.lists.affinity]
    refine List.filter_congr fun ptr _ => ?_
    unfold Snapshot.hasAffinity
    cases (snap.heap ptr).podsWithAffinity <;> simp
  · rw [hexact.lists.antiAffinity]
    refine List.filter_congr fun ptr _ => ?_
    unfold Snapshot.hasAntiAffinity
    cases (snap.heap ptr).podsWithRequiredAntiAffinity <;> simp

/-- A node becomes a ghost between two snapshots while another one is added: the last
update drops the first from the snapshot and takes the second in. -/
theorem snapshot_exact_ghost :
    ∃ (s : Scheduling) (snap : Snapshot),
      (s.fed.cache.nodes.keys = ["n2", "n1"] ∧ s.fed.cache.liveNames = ["n2"] ∧
        s.snapshot.nodeInfoMap.keys = ["n1"]) ∧
      s.fed.cache.updateSnapshot s.snapshot ⟨id, fun _ => .refl _⟩ = some (snap, none) ∧
      ∀ name, name ∈ snap.nodeInfoMap ↔
        ∃ info, s.fed.cache.nodes.lookup name = some info ∧ info.node ≠ none := by
  let cfg : Config := ⟨true, true, fun _ => false⟩
  let iter : IterOrder String := ⟨id, fun _ => .refl _⟩
  let pod : Pod := { uid := "a", name := "a", nodeName := "n1" }
  obtain ⟨s, h, hview⟩ := (machine cfg 30).exists_reach
    (fun s => (s.fed.cache.nodes.keys, s.fed.cache.liveNames, s.snapshot.nodeInfoMap.keys))
    [.call (.addNode { name := "n1" }), .call (.addPod pod), .updateSnapshot iter,
      .call (.removeNode { name := "n1" }), .call (.addNode { name := "n2" })]
    (["n2", "n1"], ["n2"], ["n1"]) (by decide +kernel)
  simp only [Prod.mk.injEq] at hview
  obtain ⟨snap, heq, hkeys, -⟩ := snapshot_exact cfg h iter
  exact ⟨s, snap, hview, heq, hkeys⟩

end Scheduling

end Kubernetes.Scheduler
