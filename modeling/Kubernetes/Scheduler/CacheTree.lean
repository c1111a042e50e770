import Kubernetes.Scheduler.CacheSteps

/-! # The node tree, the image table and the node infos

`AddNode`, `UpdateNode` and `RemoveNode` keep three views of the nodes: the node object
of each `NodeInfo`, the tree of names by zone, and for each image the names of the
nodes that have it. `Agrees` says that the three are views of one set of nodes.

`RemoveNode` changes them one after the other, finds the tree's entry by the labels of
its *argument*, and returns early when it is not there. The informer passes the last
delivered object; the scheduler's error handler passes a bare object with the name
only, whose zone and images are not those of the node.

Results:

1. `Agrees.removeNode_iff`: the views still agree after a `RemoveNode` exactly when the
   argument has the zone and the images of the cached node;
2. `Agrees.updateNode_iff`: they still agree after an `UpdateNode` unless the node info
   is a ghost and the zone does not change;
3. `views_agree`: hence over every run whose bare removals and updates of ghosts are of
   this kind, the three views agree;
4. `bare_remove_strands_node`: a run where they do not.
-/

namespace Kubernetes.Scheduler

open GoMap List

namespace NodeTree

lemma mem_zone_addNode (nt : NodeTree) (n : Node) (z x : String) :
    x ∈ (nt.addNode n).zone z ↔ x ∈ nt.zone z ∨ (z = getZoneKey n ∧ x = n.name) := by
  rw [zone_addNode]
  split_ifs with hz
  · simp [hz.1]
  constructor
  · exact .inl
  rintro (hx | ⟨hzone, hname⟩)
  · exact hx
  · -- the name was there already
    by_contra hx
    exact hz ⟨hzone, hname ▸ hx⟩

lemma mem_zone_removeNode {nt : NodeTree} (hnd : ∀ z, (nt.zone z).Nodup) (n : Node)
    (z x : String) :
    x ∈ (nt.removeNode n).1.zone z ↔ x ∈ nt.zone z ∧ ¬ (z = getZoneKey n ∧ x = n.name) := by
  rw [zone_removeNode]
  split_ifs with hz
  · rw [(hnd z).mem_erase_iff]
    tauto
  · tauto

end NodeTree

namespace SchedulerCache

/-! ## Images -/

/-- The names of the images of a node. -/
def imageNames (node : Node) : List String := (imagesOf node).map (·.1)

variable (images : GoMap String ImageState)

/-- `imageStates[image].nodes` -/
def nodesOf (image : String) : Finset String :=
  ((images.lookup image).map ImageState.nodes).getD ∅

lemma mem_nodesOf_addImage (name : String)
    (acc : GoMap String ImageState × GoMap String ImageStateSummary) (image : String × Int)
    (i x : String) :
    x ∈ nodesOf (addImage name acc image).1 i ↔
      x ∈ nodesOf acc.1 i ∨ (i = image.1 ∧ x = name) := by
  unfold addImage nodesOf
  rw [lookup_insert_if]
  split_ifs with hi
  · subst hi
    cases acc.1.lookup image.1 with
    | none => simp
    | some st => simp [or_comm]
  · simp [hi]

lemma mem_nodesOf_addNodeImageStates (node : Node)
    (i x : String) :
    x ∈ nodesOf (addNodeImageStates images node).1 i ↔
      x ∈ nodesOf images i ∨ (i ∈ imageNames node ∧ x = node.name) := by
  unfold addNodeImageStates imageNames
  generalize (∅ : GoMap String ImageStateSummary) = summary
  induction imagesOf node generalizing images summary with
  | nil => simp
  | cons image rest ih =>
    rw [foldl_cons, ih, mem_nodesOf_addImage, map_cons, mem_cons]
    tauto

lemma mem_nodesOf_removeImage (name : String) (images : GoMap String ImageState)
    (image i x : String) :
    x ∈ nodesOf (removeImage name images image) i ↔
      x ∈ nodesOf images i ∧ ¬ (i = image ∧ x = name) := by
  unfold removeImage
  cases hl : images.lookup image with
  | none =>
    have hnone : nodesOf images image = ∅ := by simp [nodesOf, hl]
    constructor
    · intro hx
      refine ⟨hx, fun h => ?_⟩
      rw [h.1, hnone] at hx
      cases hx
    · exact fun h => h.1
  | some st =>
    have hst : nodesOf images image = st.nodes := by simp [nodesOf, hl]
    have herased : i = image → (x ∈ nodesOf images i ∧ ¬ (i = image ∧ x = name) ↔
        x ∈ st.nodes.erase name) := by
      intro hi
      rw [hi, hst, Finset.mem_erase]
      tauto
    dsimp only
    split_ifs with hempty
    · -- the last node that had the image
      unfold nodesOf at herased ⊢
      rw [lookup_erase_if]
      split_ifs with hi
      · rw [herased hi, hempty]
        simp
      · simp [hi]
    · unfold nodesOf at herased ⊢
      rw [lookup_insert_if]
      split_ifs with hi
      · rw [herased hi]
        simp
      · simp [hi]

lemma mem_nodesOf_removeNodeImageStates (node : Node)
    (i x : String) :
    x ∈ nodesOf (removeNodeImageStates images (some node)) i ↔
      x ∈ nodesOf images i ∧ ¬ (i ∈ imageNames node ∧ x = node.name) := by
  simp only [removeNodeImageStates]
  show x ∈ nodesOf ((imageNames node).foldl (removeImage node.name) images) i ↔ _
  induction imageNames node generalizing images with
  | nil => simp
  | cons image rest ih =>
    rw [foldl_cons, ih, mem_nodesOf_removeImage, mem_cons]
    tauto

/-! ## Agreement -/

/-- The node infos, the tree and the image table are views of the same nodes. -/
structure Agrees (c : SchedulerCache) : Prop where
  named : ∀ name node, c.nodeAt name = some node → node.name = name
  wellFormed : c.nodeTree.WellFormed
  zone : ∀ name z, name ∈ c.nodeTree.zone z ↔ (c.nodeAt name).map getZoneKey = some z
  images : ∀ name i, name ∈ nodesOf c.imageStates i ↔
    ∃ node, c.nodeAt name = some node ∧ i ∈ imageNames node

lemma agrees_new (ttl : Int) : (new ttl).Agrees where
  named name node h := by simp [nodeAt, new] at h
  wellFormed := NodeTree.wellFormed_new
  zone name z := by simp [nodeAt, new, NodeTree.zone, NodeTree.new]
  images name i := by simp [nodeAt, new, nodesOf]

variable {c : SchedulerCache} (h : c.Agrees)

include h

lemma Agrees.of_sameLive {c' : SchedulerCache} (hs : SameLive c c') :
    c'.Agrees where
  named name node hn := h.named name node ((hs.nodeAt name).symm.trans hn)
  wellFormed := hs.nodeTree ▸ h.wellFormed
  zone name z := by
    rw [hs.nodeTree, hs.nodeAt]
    exact h.zone name z
  images name i := by
    rw [hs.imageStates, hs.nodeAt]
    exact h.images name i

lemma Agrees.not_mem_zone {name : String} (hn : c.nodeAt name = none)
    (z : String) : name ∉ c.nodeTree.zone z := by
  rw [h.zone, hn]
  simp

lemma Agrees.names_perm :
    c.nodeTree.names.Perm c.liveNames := by
  have hone : ∀ x z z', x ∈ c.nodeTree.zone z → x ∈ c.nodeTree.zone z' → z = z' := by
    intro x z z' hz hz'
    rw [h.zone] at hz hz'
    exact Option.some.inj (hz.symm.trans hz')
  rw [perm_ext_iff_of_nodup (NodeTree.nodup_names h.wellFormed hone) c.nodup_liveNames]
  intro name
  rw [NodeTree.mem_names, mem_liveNames]
  constructor
  · rintro ⟨z, hz⟩
    obtain ⟨node, hnode, -⟩ := Option.map_eq_some_iff.1 ((h.zone name z).1 hz)
    exact ⟨node, hnode⟩
  · rintro ⟨node, hnode⟩
    exact ⟨getZoneKey node, (h.zone name _).2 (by simp [hnode])⟩

lemma Agrees.numNodes :
    c.nodeTree.numNodes = c.liveNames.length := by
  rw [h.wellFormed.numNodes, h.names_perm.length_eq]

/-- The image table after `AddNode` or `UpdateNode`: the images of the node that was
there are exchanged for those of the new one. -/
lemma Agrees.mem_nodesOf_exchange (node : Node) (name i : String) :
    name ∈ nodesOf (addNodeImageStates (c.imagesWithout node.name) node).1 i ↔
      if name = node.name then i ∈ imageNames node else name ∈ nodesOf c.imageStates i := by
  rw [mem_nodesOf_addNodeImageStates]
  unfold imagesWithout
  rw [← nodeAt_eq_infoAt]
  cases hcur : c.nodeAt node.name with
  | none =>
    have hold := h.images node.name i
    rw [hcur] at hold
    simp only [removeNodeImageStates]
    split_ifs with hname
    · subst hname
      simp [hold]
    · simp [hname]
  | some cur =>
    have hold := h.images node.name i
    have hself := h.named _ _ hcur
    rw [hcur] at hold
    rw [mem_nodesOf_removeNodeImageStates, hself]
    split_ifs with hname
    · subst hname
      rw [hold]
      simp
    · simp [hname]

/-- The agreement after `AddNode` or `UpdateNode` hangs on the tree alone. -/
lemma Agrees.put_iff {c' : SchedulerCache} {node : Node}
    (hnode : ∀ name, c'.nodeAt name = if name = node.name then some node else c.nodeAt name)
    (himages : c'.imageStates = (addNodeImageStates (c.imagesWithout node.name) node).1)
    (hwf : c'.nodeTree.WellFormed) (hother : ∀ name z, name ≠ node.name →
      (name ∈ c'.nodeTree.zone z ↔ name ∈ c.nodeTree.zone z)) :
    c'.Agrees ↔ ∀ z, node.name ∈ c'.nodeTree.zone z ↔ z = getZoneKey node := by
  constructor
  · intro h' z
    rw [h'.zone, hnode, if_pos rfl]
    simp [eq_comm]
  intro hself
  refine ⟨fun name n hn => ?_, hwf, fun name z => ?_, fun name i => ?_⟩
  · rw [hnode] at hn
    split_ifs at hn with hname
    · cases hn
      exact hname.symm
    · exact h.named name n hn
  · rw [hnode]
    split_ifs with hname
    · rw [hname, hself]
      simp [eq_comm]
    · rw [hother name z hname]
      exact h.zone name z
  · rw [himages, h.mem_nodesOf_exchange, hnode]
    split
    · simp
    · exact h.images name i

variable (cfg : Config)

lemma Agrees.addNode {node : Node} (hcur : c.nodeAt node.name = none) :
    (c.addNode cfg node).Agrees := by
  have hmem := c.nodeTree.mem_zone_addNode node
  refine (h.put_iff (nodeAt_addNode cfg c node) (by rw [addNode_eq]) ?_ fun name z hne => ?_).2
    fun z => ?_
  · rw [addNode_eq]
    exact h.wellFormed.addNode node
  · rw [addNode_eq]
    show name ∈ (c.nodeTree.addNode node).zone z ↔ name ∈ c.nodeTree.zone z
    rw [hmem]
    tauto
  · rw [addNode_eq]
    show node.name ∈ (c.nodeTree.addNode node).zone z ↔ z = getZoneKey node
    rw [hmem]
    have hnot := h.not_mem_zone hcur z
    tauto

/-- `UpdateNode` keeps the views in agreement unless it revives a ghost without a
change of zone: then the node is not entered in the tree again. -/
theorem Agrees.updateNode_iff {oldNode newNode : Node} (hname : oldNode.name = newNode.name)
    (hcur : ∀ cur, c.nodeAt newNode.name = some cur → cur = oldNode) :
    (c.updateNode cfg oldNode newNode).Agrees ↔
      (newNode.name ∈ c.nodes → c.nodeAt newNode.name = none →
        getZoneKey oldNode ≠ getZoneKey newNode) := by
  -- the tree that `nodeTree.updateNode` starts from
  have hbase : ∃ nt : NodeTree, nt.WellFormed ∧
      (c.updateNode cfg oldNode newNode).nodeTree = nt.updateNode oldNode newNode ∧
      ∀ name z, name ∈ nt.zone z ↔ name ∈ c.nodeTree.zone z ∨
        (newNode.name ∉ c.nodes ∧ z = getZoneKey newNode ∧ name = newNode.name) := by
    rw [updateNode_eq]
    by_cases hmem : newNode.name ∈ c.nodes
    · refine ⟨c.nodeTree, h.wellFormed, by simp [hmem], fun name z => ?_⟩
      simp [hmem]
    refine ⟨c.nodeTree.addNode newNode, h.wellFormed.addNode _, by simp [hmem],
      fun name z => ?_⟩
    rw [NodeTree.mem_zone_addNode]
    simp [hmem]
  obtain ⟨nt, hnt, htree, hbase⟩ := hbase
  have hupdate : ∀ name z, name ∈ (nt.updateNode oldNode newNode).zone z ↔
      if getZoneKey oldNode = getZoneKey newNode then name ∈ nt.zone z
      else (name ∈ nt.zone z ∧ ¬ (z = getZoneKey oldNode ∧ name = newNode.name)) ∨
        (z = getZoneKey newNode ∧ name = newNode.name) := by
    intro name z
    unfold NodeTree.updateNode
    split
    · exact Iff.rfl
    · rw [NodeTree.mem_zone_addNode, NodeTree.mem_zone_removeNode hnt.nodup, hname]
  rw [h.put_iff (nodeAt_updateNode cfg c oldNode newNode) (by rw [updateNode_eq])
    (htree ▸ hnt.updateNode oldNode newNode) fun name z hne => ?_]
  · rw [htree]
    -- where the name stood before
    have hbefore := h.zone newNode.name
    cases hc : c.nodeAt newNode.name with
    | some cur =>
      obtain rfl := hcur cur hc
      have hmem : newNode.name ∈ c.nodes := by
        by_contra hno
        rw [nodeAt_of_not_mem (AList.lookup_eq_none.2 hno)] at hc
        cases hc
      rw [hc] at hbefore
      constructor
      · intro _ _ hnone
        cases hnone
      intro _ z
      rw [hupdate]
      split_ifs with hz
      · rw [hbase, hbefore, ← hz]
        simp [hmem, eq_comm]
      · rw [hbase, hbefore]
        simp [hmem, eq_comm]
    | none =>
      rw [hc] at hbefore
      constructor
      · intro hself hmem _ hz
        have hin := (hself (getZoneKey newNode)).2 rfl
        rw [hupdate, if_pos hz, hbase, hbefore] at hin
        simp [hmem] at hin
      intro hok z
      rw [hupdate, hbase, hbefore]
      split_ifs with hz
      · have hmem : newNode.name ∉ c.nodes := fun hmem => hok hmem rfl hz
        simp [hmem]
      simp only [Option.map_none, reduceCtorEq, false_or, and_true]
      constructor
      · rintro (hin | hin)
        · exact hin.1.2
        · exact hin
      · exact .inr
  · rw [htree, hupdate, hbase]
    split <;> tauto

/-- `RemoveNode` keeps the views in agreement exactly when its argument has the zone
and the images of the node that is removed. -/
theorem Agrees.removeNode_iff (node : Node) :
    (c.removeNode node).1.Agrees ↔
      ∀ cur, c.nodeAt node.name = some cur →
        getZoneKey cur = getZoneKey node ∧ imageNames cur ⊆ imageNames node := by
  cases hl : c.nodes.lookup node.name with
  | none =>
    have heq : (c.removeNode node).1 = c := by simp [SchedulerCache.removeNode, hl]
    rw [heq, nodeAt_of_not_mem hl]
    simp [h]
  | some info =>
    have hnode := nodeAt_removeNode c node
    have htree : (c.removeNode node).1.nodeTree = (c.nodeTree.removeNode node).1 := by
      rw [removeNode_eq hl]
    have himages : (c.removeNode node).1.imageStates =
        if node.name ∈ c.nodeTree.zone (getZoneKey node) then
          removeNodeImageStates c.imageStates (some node)
        else c.imageStates := by
      rw [removeNode_eq hl]
      simp only [NodeTree.removeNode_error]
    have hzone := NodeTree.mem_zone_removeNode h.wellFormed.nodup node
    constructor
    · intro h' cur hcur
      have hself := h'.zone node.name (getZoneKey cur)
      rw [htree, hzone, hnode, if_pos rfl, h.zone, hcur] at hself
      have hkey : getZoneKey cur = getZoneKey node := by
        by_contra hne
        exact absurd (hself.1 ⟨rfl, fun h => hne h.1⟩) (by simp)
      refine ⟨hkey, fun i hi => ?_⟩
      by_contra hno
      -- the entry for the image stays behind
      have hin : node.name ∈ nodesOf (c.removeNode node).1.imageStates i := by
        have hold : node.name ∈ nodesOf c.imageStates i := (h.images _ i).2 ⟨cur, hcur, hi⟩
        rw [himages]
        split
        · rw [mem_nodesOf_removeNodeImageStates]
          exact ⟨hold, fun h => hno h.1⟩
        · exact hold
      obtain ⟨n, hn, -⟩ := (h'.images _ i).1 hin
      rw [hnode, if_pos rfl] at hn
      cases hn
    · intro hok
      refine ⟨fun name n hn => ?_, htree ▸ h.wellFormed.removeNode node, fun name z => ?_,
        fun name i => ?_⟩
      · rw [hnode] at hn
        split_ifs at hn
        exact h.named name n hn
      · rw [htree, hzone, hnode, h.zone]
        split_ifs with hname
        · subst hname
          cases hcur : c.nodeAt node.name with
          | none => simp
          | some cur =>
            have hkey := (hok cur hcur).1
            simp [hkey, eq_comm]
        · simp [hname]
      · rw [himages, hnode]
        by_cases hname : name = node.name
        · subst hname
          rw [if_pos rfl]
          -- nothing may be left of the node
          refine iff_of_false (fun hin => ?_) (by simp)
          have hold : node.name ∈ nodesOf c.imageStates i := by
            split at hin
            · exact ((mem_nodesOf_removeNodeImageStates _ _ _ _).1 hin).1
            · exact hin
          obtain ⟨cur, hcur, hi⟩ := (h.images _ i).1 hold
          obtain ⟨hkey, hsub⟩ := hok cur hcur
          have hfound : node.name ∈ c.nodeTree.zone (getZoneKey node) := by
            rw [h.zone, hcur]
            simp [hkey]
          rw [if_pos hfound, mem_nodesOf_removeNodeImageStates] at hin
          exact hin.2 ⟨hsub hi, rfl⟩
        · rw [if_neg hname, ← h.images]
          split
          · rw [mem_nodesOf_removeNodeImageStates]
            simp [hname]
          · exact Iff.rfl

end SchedulerCache

/-! ## Runs -/

open SchedulerCache

/-- The cache, and the node objects that the informer has delivered last. -/
structure Fed where
  cache : SchedulerCache
  delivered : GoMap String Node

namespace Fed

inductive Event where
  /-- a call of the event handlers, of the scheduler or of the clean-up -/
  | call (op : Op)
  /-- `MakeDefaultErrorFunc` removes a node that the API server does not know any more;
  the argument carries the name only -/
  | nodeNotFound (name : String)

variable (cfg : Config)

def machine (ttl : Int) : Machine Fed Event where
  init := ⟨.new ttl, ∅⟩
  step s
    | .call op =>
      match deliver s.delivered op, s.cache.exec cfg op with
      | some delivered, .ok (cache, _) => some ⟨cache, delivered⟩
      | _, _ => none
    | .nodeNotFound name => some { s with cache := (s.cache.removeNode { name := name }).1 }

/-- The steps that keep the views in agreement: a node that is removed by its name only
has no zone and no images, and an update that finds a ghost changes the zone. -/
def Matching (s : Fed) : Event → Prop
  | .nodeNotFound name =>
    ∀ cur ∈ s.cache.nodeAt name, getZoneKey cur = "" ∧ imageNames cur = []
  | .call (.updateNode oldNode newNode) =>
    newNode.name ∈ s.cache.nodes → s.cache.nodeAt newNode.name = none →
      getZoneKey oldNode ≠ getZoneKey newNode
  | .call _ => True

instance (s : Fed) (e : Event) : Decidable (s.Matching e) := by
  unfold Matching
  split <;> infer_instance

/-- The cache agrees with its tree, and has its nodes from the last delivery. -/
structure Inv (s : Fed) : Prop where
  agrees : s.cache.Agrees
  named : Named s.delivered
  current : ∀ name node, s.cache.nodeAt name = some node → s.delivered.lookup name = some node

lemma inv_init (ttl : Int) : (machine cfg ttl).init.Inv where
  agrees := agrees_new ttl
  named name node h := by simp [machine] at h
  current name node h := by simp [machine, nodeAt, SchedulerCache.new] at h

variable {cfg} {s : Fed}

lemma Inv.call (h : s.Inv) {op : Op} (hok : s.Matching (.call op)) {cache : SchedulerCache}
    {delivered : GoMap String Node} {err : Option CacheError}
    (hd : deliver s.delivered op = some delivered)
    (hexec : s.cache.exec cfg op = .ok (cache, err)) : Inv ⟨cache, delivered⟩ := by
  refine ⟨?_, h.named.deliver hd, fun name node hn => ?_⟩
  swap
  · rcases nodeAt_deliver cfg hd hexec name with ⟨hcache, hlast⟩ | hsame
    · rw [hlast]
      exact h.current name node (hcache.symm.trans hn)
    · exact hsame.symm.trans hn
  by_cases hpods : op.onPods = true
  · -- a pod call
    exact h.agrees.of_sameLive (exec_podSteps cfg hpods hexec).sameLive
  cases op with
  | addNode node =>
    simp only [deliver] at hd
    split_ifs at hd with hnew
    cases hd
    cases hexec
    have hcur : s.cache.nodeAt node.name = none := by
      by_contra hne
      obtain ⟨cur, hcur⟩ := Option.ne_none_iff_exists'.1 hne
      exact hnew (mem_iff_lookup.2 ⟨cur, h.current _ _ hcur⟩)
    exact h.agrees.addNode cfg hcur
  | updateNode oldNode newNode =>
    simp only [deliver] at hd
    split_ifs at hd with hold
    cases hd
    cases hexec
    have hcur : ∀ cur, s.cache.nodeAt newNode.name = some cur → cur = oldNode := by
      intro cur hcur
      have hlast := h.current _ _ hcur
      rw [hold] at hlast
      cases hlast
      rfl
    exact (h.agrees.updateNode_iff cfg (h.named _ _ hold) hcur).2 hok
  | removeNode node =>
    simp only [deliver] at hd
    split_ifs at hd with hlast
    cases hd
    have hcache : cache = (s.cache.removeNode node).1 :=
      (congrArg Prod.fst (Except.ok.inj hexec)).symm
    subst hcache
    refine (h.agrees.removeNode_iff node).2 fun cur hcur => ?_
    -- the informer passes the cached object
    have hcached := h.current _ _ hcur
    rw [hlast] at hcached
    cases hcached
    exact ⟨rfl, fun _ hi => hi⟩
  | _ => exact absurd rfl hpods

lemma Inv.nodeNotFound (h : s.Inv) {name : String} (hok : s.Matching (.nodeNotFound name)) :
    Inv { s with cache := (s.cache.removeNode { name := name }).1 } := by
  refine ⟨(h.agrees.removeNode_iff { name := name }).2 fun cur hcur => ?_, h.named,
    fun name' n hn => ?_⟩
  · obtain ⟨hkey, hnone⟩ := hok cur hcur
    refine ⟨hkey.trans rfl, ?_⟩
    rw [hnone]
    exact nil_subset _
  · rw [nodeAt_removeNode] at hn
    split_ifs at hn
    exact h.current name' n hn

lemma Inv.step {ttl : Int} {s' : Fed} {e : Event} (h : s.Inv) (hok : s.Matching e)
    (hstep : (machine cfg ttl).step s e = some s') : s'.Inv := by
  cases e with
  | call op =>
    simp only [machine] at hstep
    split at hstep
    · rename_i hd hexec
      cases hstep
      exact h.call hok hd hexec
    · cases hstep
  | nodeNotFound name =>
    cases hstep
    exact h.nodeNotFound hok

variable (cfg)

/-- In every run whose bare removals and updates of ghosts are `Matching`, the tree
lists exactly the cached nodes, and the table of every image exactly those that have
it. -/
theorem views_agree {ttl : Int} {tr : List Event} {s : Fed}
    (h : (machine cfg ttl).ReachWhen Matching tr s) :
    s.cache.nodeTree.names.Perm s.cache.liveNames ∧
      s.cache.nodeTree.numNodes = s.cache.liveNames.length ∧
      ∀ i name, name ∈ nodesOf s.cache.imageStates i ↔
        ∃ node, s.cache.nodeAt name = some node ∧ i ∈ imageNames node := by
  have hagrees : s.cache.Agrees :=
    (h.invariant Inv (inv_init cfg ttl) fun _ _ _ hinv hok hs => hinv.step hok hs).agrees
  exact ⟨hagrees.names_perm, hagrees.numNodes, fun i name => hagrees.images name i⟩

/-- A node `m` without zone and images is removed by its name, comes back with a zone,
and `n` becomes a ghost. -/
theorem views_agree_revived :
    ∃ s : Fed, s.cache.liveNames = ["m"] ∧ s.cache.nodeTree.names.Perm s.cache.liveNames ∧
      s.cache.nodeTree.numNodes = s.cache.liveNames.length := by
  let cfg : Config := ⟨true, true, fun _ => false⟩
  let labels : GoMap String String := AList.singleton "topology.kubernetes.io/zone" "z"
  let n : Node := { name := "n", labels := labels, images := [⟨["img"], 7⟩] }
  let m : Node := { name := "m" }
  obtain ⟨s, h, hlive⟩ := (machine cfg 30).exists_reachWhen Matching
    (fun s => s.cache.liveNames)
    [.call (.addNode n), .call (.addNode m),
      .call (.addPod { uid := "a", name := "a", nodeName := "n" }), .nodeNotFound "m",
      .call (.updateNode m { m with labels := labels }), .call (.removeNode n)]
    ["m"] (by decide +kernel)
  have hagree := views_agree cfg h
  exact ⟨s, hlive, hagree.1, hagree.2.1⟩

/-- What the three views say about the nodes. -/
def views (s : Fed) : List String × List String × Finset String :=
  (s.cache.nodeTree.names, s.cache.liveNames, nodesOf s.cache.imageStates "img")

/-- Removing a zoned node by its name only leaves its name in the tree and in the image
table, and the informer's own removal does not find it any more. And a ghost without a
zone, left by such a removal, that is updated is a node outside the tree. -/
theorem bare_remove_strands_node :
    ∃ (cfg : Config) (n : Node) (pod : Pod),
      (∃ s, (machine cfg 30).Reach [.call (.addNode n), .nodeNotFound n.name] s ∧
        s.views = (["n"], [], {"n"})) ∧
      (∃ s, (machine cfg 30).Reach
          [.call (.addNode n), .nodeNotFound n.name, .call (.removeNode n)] s ∧
        s.views = (["n"], [], {"n"})) ∧
      ∃ s, (machine cfg 30).Reach
          [.call (.addNode { name := "n" }), .call (.addPod pod), .nodeNotFound "n",
            .call (.updateNode { name := "n" } { name := "n" })] s ∧
        s.views = ([], ["n"], ∅) := by
  let cfg : Config := ⟨true, true, fun _ => false⟩
  let labels : GoMap String String := AList.singleton "topology.kubernetes.io/zone" "z"
  let n : Node := { name := "n", labels := labels, images := [⟨["img"], 7⟩] }
  let pod : Pod := { uid := "a", name := "a", nodeName := "n" }
  have h₁ := (machine cfg 30).exists_reach views
    [.call (.addNode n), .nodeNotFound n.name] (["n"], [], {"n"}) (by decide +kernel)
  have h₂ := (machine cfg 30).exists_reach views
    [.call (.addNode n), .nodeNotFound n.name, .call (.removeNode n)] (["n"], [], {"n"})
    (by decide +kernel)
  have h₃ := (machine cfg 30).exists_reach views
    [.call (.addNode { name := "n" }), .call (.addPod pod), .nodeNotFound "n",
      .call (.updateNode { name := "n" } { name := "n" })]
    ([], ["n"], ∅) (by decide +kernel)
  exact ⟨cfg, n, pod, h₁, h₂, h₃⟩

end Fed

end Kubernetes.Scheduler
