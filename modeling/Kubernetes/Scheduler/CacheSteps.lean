import Kubernetes.Scheduler.Cache

/-! # The calls as small steps on the node infos

Seen from the node infos, the node tree and the image states, the seven pod calls do
only four things, collected in `PodStep`: they keep books, they write a `NodeInfo`
back with a new generation and its old node, they drop a ghost, or they touch the
affinity slices of a `NodeInfo` alone. What holds for these four holds for every pod
call (`exec_podSteps`).

The module also has the order in which the informer delivers node events.
-/

namespace Kubernetes.Scheduler

open GoMap

namespace SchedulerCache

/-! ## Pod calls -/

/-- Everything but the pod states, the assumed pods and the reports is the same. -/
structure SameNodes (c c' : SchedulerCache) : Prop where
  nodes : c'.nodes = c.nodes
  links : c'.links = c.links
  nodeTree : c'.nodeTree = c.nodeTree
  imageStates : c'.imageStates = c.imageStates
  generation : c'.generation = c.generation

/-- What a pod call can do: change the books of pods, write a node info with its node kept,
drop a ghost, or write the slices of an info anew. -/
inductive PodStep (c : SchedulerCache) : SchedulerCache → Prop where
  | books {c' : SchedulerCache} (h : SameNodes c c') : PodStep c c'
  | touch (name : String) (info : NodeInfo) (hnode : info.node = (c.infoAt name).node)
      (hgen : c.generation < info.generation) : PodStep c (c.touch name info)
  | drop (name : String) (info : NodeInfo) (hl : c.nodes.lookup name = some info)
      (hnode : info.node = none) : PodStep c (c.dropItem name (c.generation + 1))
  | slices (name : String) (info info' : NodeInfo) (hl : c.nodes.lookup name = some info)
      (hsame : NodeInfo.SameCore info' info) (hgen : info'.generation = info.generation) :
      PodStep c (c.setInfo name info')

abbrev PodSteps : SchedulerCache → SchedulerCache → Prop := Relation.ReflTransGen PodStep

variable {c c' : SchedulerCache}

lemma PodSteps.books {c'' : SchedulerCache} (h : PodSteps c c') (hb : SameNodes c' c'') :
    PodSteps c c'' :=
  h.tail (.books hb)

variable (cfg : Config)

lemma addPodLocked_podSteps (c : SchedulerCache) (pod : Pod) :
    PodSteps c (c.addPodLocked cfg pod) := by
  rw [addPodLocked_eq]
  have hgen := c.generation_lt_nextGeneration pod.nodeName
  exact .single (.touch pod.nodeName _ rfl hgen)

variable {pod : Pod} {err : Option CacheError}

lemma removePodLocked_podSteps (h : c.removePodLocked cfg pod = .ok (c', err)) :
    PodSteps c c' := by
  rcases removePodLocked_cases cfg c pod with ⟨-, heq⟩ | ⟨info, hl, hcases⟩
  · -- no such node: only reported
    rw [heq] at h
    cases h
    exact .single (.books ⟨rfl, rfl, rfl, rfl, rfl⟩)
  rcases hcases with ⟨m, hm, heq⟩ | ⟨m, e, hm, heq⟩ | ⟨-, heq⟩
  · rw [heq] at h
    cases h
    rcases NodeInfo.removePod_removed hm with ⟨-, -, hnode, hgen⟩
    split_ifs with hghost
    · exact .single (.drop _ info hl (hnode.symm.trans hghost.2))
    refine .single (.touch _ m ?_ ?_)
    · rw [infoAt_of_lookup hl]
      exact hnode
    · rw [hgen]
      exact Nat.lt_succ_self _
  · rw [heq] at h
    cases h
    rcases NodeInfo.removePod_failed hm with ⟨hsame, hgen⟩
    exact .single (.slices _ info m hl hsame hgen)
  · rw [heq] at h
    cases h

lemma dropPod_podSteps (c : SchedulerCache) (key : String) : PodSteps c (c.dropPod key) :=
  .single (.books ⟨rfl, rfl, rfl, rfl, rfl⟩)

lemma assumePod_podSteps (c : SchedulerCache) (pod : Pod) :
    PodSteps c (c.assumePod cfg pod).1 := by
  fun_cases assumePod cfg c pod with
  | case3 => exact (addPodLocked_podSteps cfg c pod).books ⟨rfl, rfl, rfl, rfl, rfl⟩
  | _ => exact .refl

lemma finishBinding_podSteps (c : SchedulerCache) (pod : Pod) (now : Int) :
    PodSteps c (c.finishBinding pod now).1 := by
  fun_cases finishBinding c pod now with
  | case3 => exact .single (.books ⟨rfl, rfl, rfl, rfl, rfl⟩)
  | _ => exact .refl

/-- A call followed by a change of the cache, unless it failed; the shape of `ForgetPod`,
`RemovePod`, `expirePod` and the two updates. -/
lemma andThen_podSteps {call : CacheResult}
    (hcall : ∀ {c1 err1}, call = .ok (c1, err1) → PodSteps c c1)
    (f : SchedulerCache → SchedulerCache) (hf : ∀ c, PodSteps c (f c))
    (h : (do match ← call with
          | (c, some err) => return (c, some err)
          | (c, none) => return (f c, none)) = (.ok (c', err) : Except Crash _)) :
    PodSteps c c' := by
  obtain ⟨⟨c1, err1⟩, heq, h⟩ := bind_eq_ok.1 h
  cases err1 with
  | some e =>
    cases h
    exact hcall heq
  | none =>
    cases h
    exact (hcall heq).trans (hf c1)

lemma forgetPod_podSteps : c.forgetPod cfg pod = .ok (c', err) → PodSteps c c' := by
  fun_cases forgetPod cfg c pod <;> intro h
  case case4 =>
    exact andThen_podSteps (removePodLocked_podSteps cfg) (·.dropPod _)
      (fun c => dropPod_podSteps c _) h
  all_goals cases h
  all_goals exact .refl

lemma relocatePod_podSteps {assumed : Pod} (h : c.relocatePod cfg assumed pod = .ok c') :
    PodSteps c c' := by
  obtain ⟨⟨c1, err1⟩, heq, h⟩ := bind_eq_ok.1 h
  have hsteps := removePodLocked_podSteps cfg heq
  cases err1 with
  | some e =>
    cases h
    have hlog : PodSteps c (c1.log (.removingPod e)) := hsteps.books ⟨rfl, rfl, rfl, rfl, rfl⟩
    exact hlog.trans (addPodLocked_podSteps cfg _ pod)
  | none =>
    cases h
    exact hsteps.trans (addPodLocked_podSteps cfg c1 pod)

lemma addPod_podSteps (h : c.addPod cfg pod = .ok (c', err)) : PodSteps c c' := by
  unfold addPod at h
  split at h
  · cases h
    exact .refl
  split at h
  · cases h
    exact (addPodLocked_podSteps cfg c pod).books ⟨rfl, rfl, rfl, rfl, rfl⟩
  split_ifs at h
  · obtain ⟨c1, heq, h⟩ := bind_eq_ok.1 h
    cases h
    exact (relocatePod_podSteps cfg heq).books ⟨rfl, rfl, rfl, rfl, rfl⟩
  · cases h
    exact .single (.books ⟨rfl, rfl, rfl, rfl, rfl⟩)
  · cases h
    exact .refl

lemma updatePodLocked_podSteps {oldPod newPod : Pod}
    (h : c.updatePodLocked cfg oldPod newPod = .ok (c', err)) :
    PodSteps c c' :=
  andThen_podSteps (removePodLocked_podSteps cfg) (·.addPodLocked cfg newPod)
    (fun c => addPodLocked_podSteps cfg c newPod) h

lemma updatePod_podSteps {oldPod newPod : Pod} :
    c.updatePod cfg oldPod newPod = .ok (c', err) → PodSteps c c' := by
  fun_cases updatePod cfg c oldPod newPod <;> intro h
  case case5 =>
    exact andThen_podSteps (updatePodLocked_podSteps cfg)
      (fun c => { c with podStates := c.podStates.insert _ _ })
      (fun c => .single (.books ⟨rfl, rfl, rfl, rfl, rfl⟩)) h
  all_goals cases h
  all_goals exact .refl

lemma removePod_podSteps : c.removePod cfg pod = .ok (c', err) → PodSteps c c' := by
  fun_cases removePod cfg c pod <;> intro h
  case case5 =>
    exact andThen_podSteps (removePodLocked_podSteps cfg)
      (fun c => { c with podStates := c.podStates.erase _ })
      (fun c => .single (.books ⟨rfl, rfl, rfl, rfl, rfl⟩)) h
  all_goals cases h
  all_goals exact .refl

lemma cleanupAssumedPod_podSteps {now : Int} {key : String} :
    cleanupAssumedPod cfg now c key = .ok c' → PodSteps c c' := by
  fun_cases cleanupAssumedPod cfg now c key <;> intro h
  case case4 =>
    obtain ⟨⟨c1, err1⟩, heq, h⟩ := bind_eq_ok.1 h
    have hsteps := andThen_podSteps (removePodLocked_podSteps cfg) (·.dropPod key)
      (fun c => dropPod_podSteps c key) heq
    cases err1 with
    | some e =>
      cases h
      exact hsteps.books ⟨rfl, rfl, rfl, rfl, rfl⟩
    | none =>
      cases h
      exact hsteps
  all_goals cases h
  all_goals exact .refl

lemma cleanupAssumedPods_podSteps {now : Int} {order : List String}
    (h : c.cleanupAssumedPods cfg now order = .ok c') : PodSteps c c' := by
  unfold cleanupAssumedPods at h
  induction order generalizing c with
  | nil =>
    cases h
    exact .refl
  | cons key order ih =>
    rw [List.foldlM_cons] at h
    obtain ⟨c1, heq, h⟩ := bind_eq_ok.1 h
    exact (cleanupAssumedPod_podSteps cfg heq).trans (ih h)

/-- Whether a call is one on pods. -/
def Op.onPods : Op → Bool
  | .addNode _ | .updateNode _ _ | .removeNode _ => false
  | _ => true

variable {op : Op}

/-- Every pod call is a sequence of such steps. -/
theorem exec_podSteps (hop : op.onPods = true) (h : c.exec cfg op = .ok (c', err)) :
    PodSteps c c' := by
  cases op with
  | addNode | updateNode | removeNode => cases hop
  | assumePod pod =>
    have hres : c.assumePod cfg pod = (c', err) := Except.ok.inj h
    have hsteps := assumePod_podSteps cfg c pod
    rw [hres] at hsteps
    exact hsteps
  | finishBinding pod now =>
    have hres : c.finishBinding pod now = (c', err) := Except.ok.inj h
    have hsteps := finishBinding_podSteps c pod now
    rw [hres] at hsteps
    exact hsteps
  | forgetPod pod => exact forgetPod_podSteps cfg h
  | addPod pod => exact addPod_podSteps cfg h
  | updatePod oldPod newPod => exact updatePod_podSteps cfg h
  | removePod pod => exact removePod_podSteps cfg h
  | cleanupAssumedPods now order =>
    obtain ⟨c1, heq, h⟩ := bind_eq_ok.1 h
    cases h
    exact cleanupAssumedPods_podSteps cfg heq

/-! ## Nodes -/

/-- The node object cached under `name`; a ghost has none. -/
def nodeAt (c : SchedulerCache) (name : String) : Option Node :=
  (c.nodes.lookup name).bind NodeInfo.node

variable {name : String}

lemma nodeAt_of_lookup {info : NodeInfo} (h : c.nodes.lookup name = some info) :
    c.nodeAt name = info.node := by
  simp [nodeAt, h]

lemma nodeAt_of_not_mem (h : c.nodes.lookup name = none) : c.nodeAt name = none := by
  simp [nodeAt, h]

lemma nodeAt_eq_infoAt (c : SchedulerCache) (name : String) :
    c.nodeAt name = (c.infoAt name).node := by
  unfold nodeAt infoAt
  cases c.nodes.lookup name <;> rfl

lemma nodeAt_touch (c : SchedulerCache) (name : String) (info : NodeInfo) (name' : String) :
    (c.touch name info).nodeAt name' = if name' = name then info.node else c.nodeAt name' := by
  unfold nodeAt touch
  rw [lookup_insert_if]
  split <;> rfl

lemma nodeAt_dropItem (c : SchedulerCache) (name : String) (g : Nat) (name' : String) :
    (c.dropItem name g).nodeAt name' = if name' = name then none else c.nodeAt name' := by
  unfold nodeAt dropItem
  rw [lookup_erase_if]
  split <;> rfl

/-- A pod call leaves the nodes, their tree and their images alone. -/
structure SameLive (c c' : SchedulerCache) : Prop where
  nodeAt : ∀ name, c'.nodeAt name = c.nodeAt name
  nodeTree : c'.nodeTree = c.nodeTree
  imageStates : c'.imageStates = c.imageStates

lemma PodStep.sameLive (h : PodStep c c') : SameLive c c' := by
  cases h with
  | books h =>
    refine ⟨fun name => ?_, h.nodeTree, h.imageStates⟩
    unfold SchedulerCache.nodeAt
    rw [h.nodes]
  | touch name info hnode hgen =>
    refine ⟨fun name' => ?_, rfl, rfl⟩
    rw [nodeAt_touch]
    split_ifs with hname
    · rw [hname, nodeAt_eq_infoAt, hnode]
    · rfl
  | drop name info hl hnode =>
    refine ⟨fun name' => ?_, rfl, rfl⟩
    rw [nodeAt_dropItem]
    split_ifs with hname
    · rw [hname, nodeAt_of_lookup hl, hnode]
    · rfl
  | slices name info info' hl hsame hgen =>
    refine ⟨fun name' => ?_, rfl, rfl⟩
    unfold SchedulerCache.nodeAt setInfo
    rw [lookup_insert_if]
    split_ifs with hname
    · rw [hname, hl]
      exact hsame.node
    · rfl

lemma PodSteps.sameLive (h : PodSteps c c') : SameLive c c' := by
  induction h with
  | refl => exact ⟨fun _ => rfl, rfl, rfl⟩
  | tail _ hstep ih =>
    have hlast := hstep.sameLive
    exact ⟨fun name => (hlast.nodeAt name).trans (ih.nodeAt name),
      hlast.nodeTree.trans ih.nodeTree, hlast.imageStates.trans ih.imageStates⟩

lemma nodeAt_addNode (c : SchedulerCache) (node : Node) (name : String) :
    (c.addNode cfg node).nodeAt name = if name = node.name then some node else c.nodeAt name := by
  rw [addNode_eq]
  exact nodeAt_touch c node.name (c.withNode cfg node) name

lemma nodeAt_updateNode (c : SchedulerCache) (oldNode newNode : Node) (name : String) :
    (c.updateNode cfg oldNode newNode).nodeAt name =
      if name = newNode.name then some newNode else c.nodeAt name := by
  rw [updateNode_eq]
  exact nodeAt_touch c newNode.name (c.withNode cfg newNode) name

variable (c)

lemma nodeAt_removeNode (node : Node) (name : String) :
    (c.removeNode node).1.nodeAt name = if name = node.name then none else c.nodeAt name := by
  cases hl : c.nodes.lookup node.name with
  | none =>
    have hnone := nodeAt_of_not_mem hl
    have heq : (c.removeNode node).1 = c := by simp [removeNode, hl]
    rw [heq]
    split_ifs with hname
    · rw [hname, hnone]
    · rfl
  | some info =>
    rw [removeNode_eq hl]
    show (c.ghosted node.name info).nodeAt name = _
    unfold ghosted
    split
    · exact nodeAt_dropItem c node.name _ name
    · exact nodeAt_touch c node.name _ name

/-- The names of the cached nodes that are not ghosts. -/
def liveNames : List String :=
  c.nodes.keys.filter fun name => (c.nodeAt name).isSome

variable {c}

lemma mem_liveNames :
    name ∈ c.liveNames ↔ ∃ node, c.nodeAt name = some node := by
  unfold liveNames
  rw [List.mem_filter, Option.isSome_iff_exists]
  constructor
  · exact fun h => h.2
  rintro ⟨node, hnode⟩
  refine ⟨?_, node, hnode⟩
  by_contra hmem
  have hl : c.nodes.lookup name = none := AList.lookup_eq_none.2 hmem
  rw [nodeAt_of_not_mem hl] at hnode
  cases hnode

lemma nodup_liveNames (c : SchedulerCache) : c.liveNames.Nodup :=
  c.nodes.keys_nodup.filter _

/-! ## Informer order -/

/-- The node objects last delivered by the informer, after it delivers one more event:
an `Add` of a name that is not there, an `Update` from the last delivered object, a
`Remove` of the last delivered object. The other calls are no node events. -/
def deliver (delivered : GoMap String Node) : Op → Option (GoMap String Node)
  | .addNode node =>
    if node.name ∈ delivered then none else some (delivered.insert node.name node)
  | .updateNode oldNode newNode =>
    if delivered.lookup newNode.name = some oldNode then
      some (delivered.insert newNode.name newNode)
    else none
  | .removeNode node =>
    if delivered.lookup node.name = some node then some (delivered.erase node.name) else none
  | _ => some delivered

variable {delivered : GoMap String Node}

/-- Every object is delivered under its own name. -/
def Named (delivered : GoMap String Node) : Prop :=
  ∀ name node, delivered.lookup name = some node → node.name = name

lemma Named.insert (h : Named delivered) (node : Node) :
    Named (delivered.insert node.name node) := by
  intro name n hn
  rw [lookup_insert_if] at hn
  split_ifs at hn with hname
  · cases hn
    exact hname.symm
  · exact h name n hn

lemma Named.erase (h : Named delivered) (name : String) :
    Named (delivered.erase name) := by
  intro name' n hn
  rw [lookup_erase_if] at hn
  split_ifs at hn
  exact h name' n hn

lemma Named.deliver {delivered' : GoMap String Node} (h : Named delivered) :
    deliver delivered op = some delivered' → Named delivered' := by
  fun_cases SchedulerCache.deliver delivered op <;> intro hd <;> cases hd
  case case2 node _ => exact h.insert node
  case case3 newNode _ => exact h.insert newNode
  case case5 node _ => exact h.erase node.name
  case case7 => exact h

/-- A node event and its call treat every name alike: both leave it as it was, or the cache
has the object that was delivered. -/
lemma nodeAt_deliver {delivered' : GoMap String Node} (hd : deliver delivered op = some delivered')
    (hexec : c.exec cfg op = .ok (c', err)) (name : String) :
    (c'.nodeAt name = c.nodeAt name ∧ delivered'.lookup name = delivered.lookup name) ∨
      c'.nodeAt name = delivered'.lookup name := by
  cases op with
  | addNode node =>
    cases (Option.ite_none_left_eq_some.1 hd).2
    cases hexec
    rw [nodeAt_addNode, lookup_insert_if]
    split_ifs <;> simp
  | updateNode oldNode newNode =>
    cases (Option.ite_none_right_eq_some.1 hd).2
    cases hexec
    rw [nodeAt_updateNode, lookup_insert_if]
    split_ifs <;> simp
  | removeNode node =>
    cases (Option.ite_none_right_eq_some.1 hd).2
    have hres : c' = (c.removeNode node).1 := (congrArg Prod.fst (Except.ok.inj hexec)).symm
    rw [hres, nodeAt_removeNode, lookup_erase_if]
    split_ifs <;> simp
  | _ =>
    cases hd
    exact .inl ⟨(exec_podSteps cfg rfl hexec).sameLive.nodeAt name, rfl⟩

end SchedulerCache

end Kubernetes.Scheduler
