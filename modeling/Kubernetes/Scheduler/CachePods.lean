import Kubernetes.Scheduler.Cache

/-! # Every pod is accounted exactly once

The scheduler cache tracks a pod in three places: its state, the set of assumed
pods, and the pods of a `NodeInfo`. The abstract view is a single relation, "the
pod with this key is on that node", given by the pod states; `Accounted` says that
the node infos hold exactly this relation.

Results:

1. `addPodLocked_effect`, `removePodLocked_effect`: what the two primitives do to the
   keys on each node;
2. `exec_sound`: every call keeps `Accounted` and never looks for a pod in vain;
3. `pod_accounting`: the consequences over every run.
-/

namespace Kubernetes.Scheduler

open GoMap List AList Finset

namespace SchedulerCache

/-! ## The keys on each node -/

/-- The keys of the pods accounted to the node `name`. -/
def keysAt (c : SchedulerCache) (name : String) : List String :=
  ((c.nodes.lookup name).map fun info => info.pods.map Pod.uid).getD []

variable {c c' : SchedulerCache}

open Pod

lemma keysAt_of_lookup {name : String} {info : NodeInfo} (h : c.nodes.lookup name = some info) :
    c.keysAt name = info.pods.map uid := by
  simp [keysAt, h]

lemma keysAt_eq_infoAt (c : SchedulerCache) (name : String) :
    c.keysAt name = (c.infoAt name).pods.map uid := by
  unfold keysAt infoAt
  cases c.nodes.lookup name <;> rfl

lemma keysAt_touch (c : SchedulerCache) (name : String) (info : NodeInfo) (name' : String) :
    (c.touch name info).keysAt name' =
      if name' = name then info.pods.map uid else c.keysAt name' := by
  unfold keysAt touch
  rw [lookup_insert_if]
  split <;> rfl

lemma keysAt_dropItem (c : SchedulerCache) (name : String) (g : Nat) (name' : String) :
    (c.dropItem name g).keysAt name' = if name' = name then [] else c.keysAt name' := by
  unfold keysAt dropItem
  rw [lookup_erase_if]
  split <;> rfl

variable {k : String}

lemma map_uid_eraseP (hk : k ≠ "") (pods : List Pod) :
    (pods.eraseP (hasKey k)).map uid = (pods.map uid).erase k := by
  induction pods with
  | nil => rfl
  | cons p pods ih =>
    by_cases hp : p.uid = k
    · have hkey : hasKey k p = true := hasKey_iff.2 ⟨hp, hk⟩
      rw [eraseP_cons_of_pos hkey, List.map_cons, hp, erase_cons_head]
    · have hkey : ¬ hasKey k p = true := fun h => hp (hasKey_iff.1 h).1
      rw [eraseP_cons_of_neg hkey, List.map_cons, List.map_cons, ih,
        erase_cons_tail (by simpa using hp)]

/-- The pod states, the assumed pods and the reports are the same. -/
structure SameBooks (c c' : SchedulerCache) : Prop where
  podStates : c'.podStates = c.podStates
  assumedPods : c'.assumedPods = c.assumedPods
  logged : c'.logged = c.logged

variable (cfg : Config) {pod : Pod}

theorem addPodLocked_effect (hnd : ∀ name, (c.keysAt name).Nodup)
    (hk : pod.uid ∉ c.keysAt pod.nodeName) :
    SameBooks c (c.addPodLocked cfg pod) ∧
      (∀ name, ((c.addPodLocked cfg pod).keysAt name).Nodup) ∧
      ∀ name k, k ∈ (c.addPodLocked cfg pod).keysAt name ↔
        k ∈ c.keysAt name ∨ (name = pod.nodeName ∧ k = pod.uid) := by
  rw [addPodLocked_eq]
  have hkeys : ∀ name, (c.touch pod.nodeName ((c.infoAt pod.nodeName).addPod cfg pod
      (c.nextGeneration pod.nodeName))).keysAt name =
      if name = pod.nodeName then c.keysAt name ++ [pod.uid] else c.keysAt name := by
    intro name
    rw [keysAt_touch]
    split_ifs with hname
    · rw [hname, keysAt_eq_infoAt]
      simp [NodeInfo.addPod]
    · rfl
  refine ⟨⟨rfl, rfl, rfl⟩, fun name => ?_, fun name k => ?_⟩
  · rw [hkeys]
    split_ifs with hname
    · have hnot : pod.uid ∉ c.keysAt name := hname ▸ hk
      simpa using (hnd name).concat hnot
    · exact hnd name
  · rw [hkeys]
    split_ifs with hname
    · simp [hname]
    · simp [hname]

/-- A pod that is accounted to its node is found there. -/
theorem removePodLocked_effect (hnd : ∀ name, (c.keysAt name).Nodup) (huid : pod.uid ≠ "")
    (hk : pod.uid ∈ c.keysAt pod.nodeName) :
    ∃ c', c.removePodLocked cfg pod = .ok (c', none) ∧ SameBooks c c' ∧
      (∀ name, (c'.keysAt name).Nodup) ∧
      ∀ name k, k ∈ c'.keysAt name ↔
        k ∈ c.keysAt name ∧ ¬ (name = pod.nodeName ∧ k = pod.uid) := by
  -- the node is known and holds the pod
  have hfound : ∃ info, c.nodes.lookup pod.nodeName = some info ∧
      ∃ p ∈ info.pods, hasKey pod.uid p := by
    cases hl : c.nodes.lookup pod.nodeName with
    | none => simp [keysAt, hl] at hk
    | some info =>
      rw [keysAt_of_lookup hl] at hk
      obtain ⟨p, hp, hpk⟩ := mem_map.1 hk
      exact ⟨info, rfl, p, hp, hasKey_iff.2 ⟨hpk, huid⟩⟩
  obtain ⟨info, hl, p, hp, hpk⟩ := hfound
  have hremoved : ∃ info', info.removePod cfg pod (c.generation + 1) = .removed info' ∧
      info'.pods.Perm (info.pods.eraseP (hasKey pod.uid)) := by
    rcases NodeInfo.removePod_cases cfg info pod (c.generation + 1) with
      ⟨m, hm, hperm, -⟩ | ⟨m, err, hm, -, -, hno⟩ | ⟨hm, -, -, hno⟩
    · exact ⟨m, hm, hperm⟩
    · exact absurd hpk (hno p hp)
    · exact absurd hpk (hno p hp)
  obtain ⟨info', hinfo', hperm⟩ := hremoved
  have hkeys' : (info'.pods.map uid).Perm ((c.keysAt pod.nodeName).erase pod.uid) := by
    have hmap := hperm.map uid
    rw [map_uid_eraseP huid, ← keysAt_of_lookup hl] at hmap
    exact hmap
  -- whether the item is dropped or moved to the head, its keys are those of `info'`
  have hresult : ∃ c', c.removePodLocked cfg pod = .ok (c', none) ∧ SameBooks c c' ∧
      ∀ name, (c'.keysAt name).Perm
        (if name = pod.nodeName then (c.keysAt name).erase pod.uid else c.keysAt name) := by
    rcases removePodLocked_cases cfg c pod with ⟨hnone, -⟩ | ⟨i, hi, hcases⟩
    · rw [hl] at hnone
      cases hnone
    obtain rfl : info = i := Option.some.inj (hl.symm.trans hi)
    rcases hcases with ⟨m, hm, heq⟩ | ⟨m, err, hm, -⟩ | ⟨hm, -⟩
    · obtain rfl : info' = m := by
        rw [hinfo'] at hm
        cases hm
        rfl
      refine ⟨_, heq, ?_, fun name => ?_⟩
      · split <;> exact ⟨rfl, rfl, rfl⟩
      split
      · rename_i hghost
        rw [keysAt_dropItem]
        split_ifs with hname
        · rw [hghost.1] at hkeys'
          exact hname ▸ hkeys'
        · exact List.Perm.refl _
      · rw [keysAt_touch]
        split_ifs with hname
        · exact hname ▸ hkeys'
        · exact List.Perm.refl _
    · rw [hinfo'] at hm
      cases hm
    · rw [hinfo'] at hm
      cases hm
  obtain ⟨c', hc', hbooks, hall⟩ := hresult
  refine ⟨c', hc', hbooks, fun name => ?_, fun name k => ?_⟩
  · rw [(hall name).nodup_iff]
    split
    · exact (hnd name).erase _
    · exact hnd name
  · rw [(hall name).mem_iff]
    split_ifs with hname
    · rw [(hnd name).mem_erase_iff]
      tauto
    · tauto

/-! ## The invariant -/

/-- The node infos hold exactly the pods of the pod states, each on the node that its
state names; the assumed pods have states, and those whose binding is finished a
deadline; and nothing has been reported as an error. -/
structure Accounted (c : SchedulerCache) : Prop where
  assumed : ∀ k ∈ c.assumedPods, k ∈ c.podStates
  keyed : ∀ k st, c.podStates.lookup k = some st → st.pod.uid = k ∧ k ≠ ""
  nodup : ∀ name, (c.keysAt name).Nodup
  holds : ∀ name k, k ∈ c.keysAt name ↔
    ∃ st, c.podStates.lookup k = some st ∧ st.pod.nodeName = name
  deadline : ∀ k st, k ∈ c.assumedPods → c.podStates.lookup k = some st →
    st.bindingFinished = true → st.deadline ≠ none
  logged : c.logged = []

lemma accounted_new (ttl : Int) : (new ttl).Accounted where
  assumed k h := by simp [new] at h
  keyed k st h := by simp [new] at h
  nodup name := by simp [keysAt, new]
  holds name k := by simp [keysAt, new]
  deadline k st h := by simp [new] at h
  logged := rfl

variable {st : PodState}

section

variable (h : c.Accounted)

include h

/-- A change of the node infos that moves no pod. -/
lemma Accounted.of_keysAt_eq (hb : SameBooks c c')
    (hkeys : ∀ name, c'.keysAt name = c.keysAt name) : c'.Accounted where
  assumed := by
    rw [hb.assumedPods, hb.podStates]
    exact h.assumed
  keyed := by
    rw [hb.podStates]
    exact h.keyed
  nodup name := by
    rw [hkeys]
    exact h.nodup name
  holds name k := by
    rw [hkeys, hb.podStates]
    exact h.holds name k
  deadline := by
    rw [hb.assumedPods, hb.podStates]
    exact h.deadline
  logged := hb.logged.trans h.logged

/-- A change of the accounts of one key `k`. -/
lemma Accounted.change (k : String)
    (hstates : ∀ k', k' ≠ k → c'.podStates.lookup k' = c.podStates.lookup k')
    (hassum : ∀ k', k' ≠ k → (k' ∈ c'.assumedPods → k' ∈ c.assumedPods))
    (hkeys : ∀ k', k' ≠ k → ∀ name, k' ∈ c'.keysAt name ↔ k' ∈ c.keysAt name)
    (hnodup : ∀ name, (c'.keysAt name).Nodup) (hlogged : c'.logged = [])
    (hself : k ∈ c'.assumedPods → k ∈ c'.podStates)
    (hkeyed : ∀ st, c'.podStates.lookup k = some st → st.pod.uid = k ∧ k ≠ "")
    (hholds : ∀ name, k ∈ c'.keysAt name ↔
      ∃ st, c'.podStates.lookup k = some st ∧ st.pod.nodeName = name)
    (hdeadline : ∀ st, k ∈ c'.assumedPods → c'.podStates.lookup k = some st →
      st.bindingFinished = true → st.deadline ≠ none) : c'.Accounted where
  assumed k' hk' := by
    by_cases hk : k' = k
    · subst hk
      exact hself hk'
    · obtain ⟨st, hst⟩ := mem_iff_lookup.1 (h.assumed k' (hassum k' hk hk'))
      exact mem_iff_lookup.2 ⟨st, (hstates k' hk).trans hst⟩
  keyed k' st hst := by
    by_cases hk : k' = k
    · subst hk
      exact hkeyed st hst
    · exact h.keyed k' st ((hstates k' hk).symm.trans hst)
  nodup := hnodup
  holds name k' := by
    by_cases hk : k' = k
    · subst hk
      exact hholds name
    · rw [hkeys k' hk, hstates k' hk]
      exact h.holds name k'
  deadline k' st hk' hst := by
    by_cases hk : k' = k
    · subst hk
      exact hdeadline st hk' hst
    · exact h.deadline k' st (hassum k' hk hk') ((hstates k' hk).symm.trans hst)
  logged := hlogged

lemma Accounted.not_mem_keysAt (hk : c.podStates.lookup k = none)
    (name : String) : k ∉ c.keysAt name := by
  intro hmem
  obtain ⟨st, hst, -⟩ := (h.holds name k).1 hmem
  rw [hk] at hst
  cases hst

lemma Accounted.mem_keysAt (hst : c.podStates.lookup k = some st) (name : String) :
    k ∈ c.keysAt name ↔ st.pod.nodeName = name := by
  rw [h.holds]
  constructor
  · rintro ⟨st', hst', hname⟩
    rw [hst] at hst'
    cases hst'
    exact hname
  · intro hname
    exact ⟨st, hst, hname⟩

/-! ## Node calls -/

lemma Accounted.withNode (node : Node) (tree : NodeTree) (images : GoMap String ImageState) :
    Accounted { c.touch node.name (c.withNode cfg node) with
      nodeTree := tree, imageStates := images } := by
  refine h.of_keysAt_eq ⟨rfl, rfl, rfl⟩ fun name => ?_
  have htouch := keysAt_touch c node.name (c.withNode cfg node) name
  show (c.touch node.name (c.withNode cfg node)).keysAt name = c.keysAt name
  rw [htouch]
  split_ifs with hname
  · rw [hname, keysAt_eq_infoAt]
    rfl
  · rfl

open SchedulerCache

lemma Accounted.ghosted {name : String} {info : NodeInfo}
    (hl : c.nodes.lookup name = some info) (tree : NodeTree) (images : GoMap String ImageState) :
    Accounted { c.ghosted name info with nodeTree := tree, imageStates := images } := by
  refine h.of_keysAt_eq ?_ fun name' => ?_
  · unfold SchedulerCache.ghosted
    split <;> exact ⟨rfl, rfl, rfl⟩
  show (c.ghosted name info).keysAt name' = c.keysAt name'
  unfold SchedulerCache.ghosted
  split_ifs with hp
  · -- dropped, because it has no pods
    rw [keysAt_dropItem]
    split_ifs with hname
    · rw [hname, keysAt_of_lookup hl, hp]
      rfl
    · rfl
  · rw [keysAt_touch]
    split_ifs with hname
    · rw [hname, keysAt_of_lookup hl]
      rfl
    · rfl

lemma Accounted.removeNode (node : Node) :
    (c.removeNode node).1.Accounted := by
  cases hl : c.nodes.lookup node.name with
  | none =>
    unfold SchedulerCache.removeNode
    rw [hl]
    exact h
  | some info =>
    rw [removeNode_eq hl]
    exact h.ghosted hl _ _

/-! ## Pod calls -/

/-- How a call may end: with the accounts in order and not because a pod was not
found on its node; or with the crash of a pod that changed its node. -/
def Sound : CacheResult → Prop
  | .ok (c, err) => c.Accounted ∧ ∀ p n, err ≠ some (.pod (.noCorrespondingPod p n))
  | .error crash => crash = .corrupted

omit h in
lemma getPodKey_ok : getPodKey pod = .ok k → k = pod.uid ∧ pod.uid ≠ "" := by
  fun_cases getPodKey pod <;> intro hkey <;> cases hkey
  exact ⟨rfl, ‹_›⟩

lemma Accounted.keyError {err : PodError} : getPodKey pod = .error err →
    Sound (.ok (c, some (.pod err))) := by
  fun_cases getPodKey pod <;> intro hkey <;> cases hkey
  exact ⟨h, by simp⟩

/-- Adding a pod that has no state yet, assumed or not. -/
lemma Accounted.insert (huid : pod.uid ≠ "")
    (hnone : c.podStates.lookup pod.uid = none) (assumed : Finset String)
    (hassum : ∀ k, k ≠ pod.uid → k ∈ assumed → k ∈ c.assumedPods) :
    Accounted { c.addPodLocked cfg pod with
      podStates := c.podStates.insert pod.uid ⟨pod, none, false⟩
      assumedPods := assumed } := by
  have hnot := h.not_mem_keysAt hnone
  obtain ⟨hbooks, hnd, hmem⟩ := addPodLocked_effect cfg h.nodup (hnot pod.nodeName)
  refine h.change pod.uid (fun k hk => ?_) hassum (fun k hk name => ?_) hnd
    (hbooks.logged.trans h.logged) (fun _ => by simp) (fun st hst => ?_) (fun name => ?_)
    (fun st _ hst hfin => ?_)
  · exact lookup_insert_ne hk
  · show k ∈ (c.addPodLocked cfg pod).keysAt name ↔ k ∈ c.keysAt name
    rw [hmem]
    tauto
  · rw [lookup_insert] at hst
    cases hst
    exact ⟨rfl, huid⟩
  · refine (hmem name pod.uid).trans ?_
    simp [hnot name, eq_comm]
  · rw [lookup_insert] at hst
    cases hst
    cases hfin

lemma assumePod_sound (pod : Pod) :
    Sound (.ok (c.assumePod cfg pod)) := by
  fun_cases assumePod cfg c pod with
  | case1 err hkey => exact h.keyError hkey
  | case2 => exact ⟨h, by simp⟩
  | case3 key hkey hnot =>
    obtain ⟨rfl, huid⟩ := getPodKey_ok hkey
    have hnone := lookup_eq_none.2 hnot
    have hbooks := (addPodLocked_effect cfg h.nodup (h.not_mem_keysAt hnone pod.nodeName)).1
    refine ⟨?_, by simp⟩
    rw [hbooks.podStates, hbooks.assumedPods]
    exact h.insert cfg huid hnone _ fun k hk hmem => (mem_insert.1 hmem).resolve_left hk

lemma finishBinding_sound (pod : Pod) (now : Int) :
    Sound (.ok (c.finishBinding pod now)) := by
  fun_cases finishBinding c pod now with
  | case1 err hkey => exact h.keyError hkey
  | case3 key hkey st hst hassum =>
    refine ⟨?_, by simp⟩
    refine h.change key (fun k hk => lookup_insert_ne hk) (fun _ _ hk => hk)
      (fun _ _ _ => Iff.rfl) h.nodup h.logged (fun _ => by simp) (fun st' hst' => ?_)
      (fun name => ?_) (fun st' _ hst' _ => ?_)
    · rw [lookup_insert] at hst'
      cases hst'
      exact h.keyed _ st hst
    · refine (h.mem_keysAt hst name).trans ?_
      simp
    · rw [lookup_insert] at hst'
      cases hst'
      simp
  | _ => exact ⟨h, by simp⟩

/-- `c'` is `c` with the pod of key `k` taken from its node, its accounts untouched. -/
structure Detached (k : String) (c c' : SchedulerCache) : Prop where
  books : SameBooks c c'
  nodup : ∀ name, (c'.keysAt name).Nodup
  keys : ∀ name k', k' ∈ c'.keysAt name ↔ k' ∈ c.keysAt name ∧ k' ≠ k

lemma Accounted.detach (hst : c.podStates.lookup pod.uid = some st)
    (hnode : st.pod.nodeName = pod.nodeName) :
    ∃ c', c.removePodLocked cfg pod = .ok (c', none) ∧ Detached pod.uid c c' := by
  have hhere := h.mem_keysAt hst
  have huid := (h.keyed _ st hst).2
  obtain ⟨c', heq, hbooks, hnd, hmem⟩ :=
    removePodLocked_effect cfg h.nodup huid ((hhere _).2 hnode)
  refine ⟨c', heq, hbooks, hnd, fun name k' => ?_⟩
  rw [hmem]
  constructor
  · rintro ⟨hk', hne⟩
    refine ⟨hk', fun hk => hne ⟨?_, hk⟩⟩
    subst hk
    exact ((hhere name).1 hk').symm.trans hnode
  · rintro ⟨hk', hne⟩
    exact ⟨hk', fun heq => hne heq.2⟩

lemma Accounted.drop (hd : Detached k c c') (assumed : Finset String)
    (hk : k ∉ assumed) (hassum : ∀ k' ∈ assumed, k' ∈ c.assumedPods) :
    Accounted { c' with podStates := c'.podStates.erase k, assumedPods := assumed } := by
  have hnone : (c'.podStates.erase k).lookup k = none := by
    rw [lookup_erase_if, if_pos rfl]
  refine h.change k (fun k' hk' => ?_) (fun k' _ => hassum k') (fun k' hk' name => ?_) hd.nodup
    (hd.books.logged.trans h.logged) (fun hself => absurd hself hk) (fun st hst => ?_)
    (fun name => ?_) (fun st hself => absurd hself hk)
  · show (c'.podStates.erase k).lookup k' = c.podStates.lookup k'
    rw [lookup_erase_if, if_neg hk', hd.books.podStates]
  · refine (hd.keys name k').trans ?_
    simp [hk']
  · rw [hnone] at hst
    cases hst
  · refine (hd.keys name k).trans ?_
    simp [hnone]

/-- The pod comes back, to the node of `pod`, and its state with it. -/
lemma Accounted.reattach (huid : pod.uid ≠ "") (hd : Detached pod.uid c c')
    (assumed : Finset String) (hk : pod.uid ∉ assumed)
    (hassum : ∀ k' ∈ assumed, k' ∈ c.assumedPods) (st : PodState) (hst : st.pod = pod) :
    Accounted { c'.addPodLocked cfg pod with
      podStates := (c'.addPodLocked cfg pod).podStates.insert pod.uid st
      assumedPods := assumed } := by
  have hnot : ∀ name, pod.uid ∉ c'.keysAt name := fun name hmem => ((hd.keys _ _).1 hmem).2 rfl
  obtain ⟨hbooks, hnd, hmem⟩ := addPodLocked_effect cfg hd.nodup (hnot pod.nodeName)
  refine h.change pod.uid (fun k' hk' => ?_) (fun k' _ => hassum k') (fun k' hk' name => ?_) hnd
    ((hbooks.logged.trans hd.books.logged).trans h.logged) (fun hself => absurd hself hk)
    (fun st' hst' => ?_) (fun name => ?_) (fun st' hself => absurd hself hk)
  · show ((c'.addPodLocked cfg pod).podStates.insert pod.uid st).lookup k' = _
    rw [lookup_insert_ne hk', hbooks.podStates, hd.books.podStates]
  · refine (hmem name k').trans ?_
    rw [hd.keys]
    tauto
  · rw [lookup_insert] at hst'
    cases hst'
    exact ⟨congrArg uid hst, huid⟩
  · refine (hmem name pod.uid).trans ?_
    simp [hnot name, hst, eq_comm]

lemma Accounted.restate {st' : PodState} (hst : c.podStates.lookup k = some st)
    (huid : st'.pod.uid = k) (hnode : st'.pod.nodeName = st.pod.nodeName) (assumed : Finset String)
    (hk : k ∉ assumed) (hassum : ∀ k' ∈ assumed, k' ∈ c.assumedPods) :
    Accounted { c with podStates := c.podStates.insert k st', assumedPods := assumed } := by
  refine h.change k (fun k' hk' => lookup_insert_ne hk') (fun k' _ => hassum k')
    (fun _ _ _ => Iff.rfl) h.nodup h.logged (fun hself => absurd hself hk) (fun st1 hst1 => ?_)
    (fun name => ?_) (fun st1 hself => absurd hself hk)
  · rw [lookup_insert] at hst1
    cases hst1
    exact ⟨huid, (h.keyed k st hst).2⟩
  · refine (h.mem_keysAt hst name).trans ?_
    simp [hnode]

lemma forgetPod_sound (pod : Pod) :
    Sound (c.forgetPod cfg pod) := by
  fun_cases forgetPod cfg c pod with
  | case1 err hkey => exact h.keyError hkey
  | case4 key hkey st hst hnode hassum =>
    obtain ⟨rfl, -⟩ := getPodKey_ok hkey
    obtain ⟨c', heq, hd⟩ := h.detach cfg hst (not_not.1 hnode)
    rw [heq]
    refine ⟨?_, by simp⟩
    refine h.drop hd _ (notMem_erase _ _) fun k' hk' => ?_
    rw [← hd.books.assumedPods]
    exact mem_of_mem_erase hk'
  | _ => exact ⟨h, by simp⟩

lemma addPod_sound (pod : Pod) :
    Sound (c.addPod cfg pod) := by
  fun_cases addPod cfg c pod with
  | case1 err hkey => exact h.keyError hkey
  | case2 key hkey hst =>
    obtain ⟨rfl, huid⟩ := getPodKey_ok hkey
    have hbooks := (addPodLocked_effect cfg h.nodup (h.not_mem_keysAt hst pod.nodeName)).1
    refine ⟨?_, by simp⟩
    have hins := h.insert cfg huid hst c.assumedPods fun _ _ hk => hk
    rw [← hbooks.podStates, ← hbooks.assumedPods] at hins
    exact hins
  | case3 key hkey st hst hassum _ hnode =>
    -- assumed on another node
    obtain ⟨rfl, huid⟩ := getPodKey_ok hkey
    obtain ⟨hself, -⟩ := h.keyed _ st hst
    obtain ⟨c', heq, hd⟩ := h.detach cfg (by rw [hself]; exact hst) rfl
    rw [hself] at hd
    have hgone : pod.uid ∉ c'.keysAt pod.nodeName := fun hmem => ((hd.keys _ _).1 hmem).2 rfl
    have hbooks := (addPodLocked_effect cfg hd.nodup hgone).1
    unfold relocatePod
    rw [heq]
    refine ⟨?_, by simp⟩
    refine h.reattach cfg huid hd _ (notMem_erase _ _) (fun k' hk' => ?_) _ rfl
    rw [← hd.books.assumedPods, ← hbooks.assumedPods]
    exact mem_of_mem_erase hk'
  | case4 key hkey st hst hassum _ hnode =>
    obtain ⟨rfl, -⟩ := getPodKey_ok hkey
    refine ⟨?_, by simp⟩
    exact h.restate hst rfl (not_not.1 hnode).symm _ (notMem_erase _ _)
      fun k' hk' => mem_of_mem_erase hk'
  | case5 => exact ⟨h, by simp⟩

lemma updatePod_sound {oldPod newPod : Pod} (huid : newPod.uid = oldPod.uid)
    (hname : newPod.nodeName = oldPod.nodeName) :
    Sound (c.updatePod cfg oldPod newPod) := by
  fun_cases updatePod cfg c oldPod newPod with
  | case1 err hkey => exact h.keyError hkey
  | case4 => rfl
  | case5 key hkey st hst hassum hnode =>
    obtain ⟨rfl, hne⟩ := getPodKey_ok hkey
    obtain ⟨c', heq, hd⟩ := h.detach cfg hst ((not_not.1 hnode).trans hname)
    rw [← huid] at hd hne hassum
    have hgone : newPod.uid ∉ c'.keysAt newPod.nodeName :=
      fun hmem => ((hd.keys _ _).1 hmem).2 rfl
    have hbooks := (addPodLocked_effect cfg hd.nodup hgone).1
    have hset : (c'.addPodLocked cfg newPod).assumedPods = c.assumedPods :=
      hbooks.assumedPods.trans hd.books.assumedPods
    unfold updatePodLocked
    rw [heq, ← huid]
    refine ⟨?_, by simp⟩
    refine h.reattach cfg hne hd (c'.addPodLocked cfg newPod).assumedPods ?_ ?_ _ rfl
    · rw [hset]
      exact hassum
    · rw [hset]
      exact fun _ hk => hk
  | _ => exact ⟨h, by simp⟩

lemma removePod_sound (pod : Pod) :
    Sound (c.removePod cfg pod) := by
  fun_cases removePod cfg c pod with
  | case1 err hkey => exact h.keyError hkey
  | case4 => rfl
  | case5 key hkey st hst hassum hnode =>
    obtain ⟨hself, -⟩ := h.keyed _ st hst
    obtain ⟨c', heq, hd⟩ := h.detach cfg (by rw [hself]; exact hst) rfl
    rw [heq]
    rw [hself] at hd
    refine ⟨?_, by simp⟩
    have hset := hd.books.assumedPods
    exact h.drop hd c'.assumedPods (by rw [hset]; exact hassum)
      (by rw [hset]; exact fun _ hk => hk)
  | _ => exact ⟨h, by simp⟩

/-! ## The clean-up loop -/

lemma cleanupAssumedPod_sound (now : Int) {key : String} (hkey : key ∈ c.assumedPods) :
    ∃ c', cleanupAssumedPod cfg now c key = .ok c' ∧ c'.Accounted ∧
      ∀ k, k ≠ key → k ∈ c.assumedPods → k ∈ c'.assumedPods := by
  obtain ⟨ps, hps⟩ := mem_iff_lookup.1 (h.assumed key hkey)
  unfold cleanupAssumedPod
  rw [hps]
  dsimp only
  split_ifs with hfin
  · exact ⟨c, rfl, h, fun _ _ hk => hk⟩
  have hdl := h.deadline key ps hkey hps (by simpa using hfin)
  cases hd : ps.deadline with
  | none => exact absurd hd hdl
  | some deadline =>
    dsimp only
    split_ifs with hlt
    · obtain ⟨hself, -⟩ := h.keyed key ps hps
      obtain ⟨c', heq, hdet⟩ := h.detach cfg (by rw [hself]; exact hps) rfl
      rw [hself] at hdet
      have hset := hdet.books.assumedPods
      refine ⟨c'.dropPod key, ?_, ?_, fun k hne hk => ?_⟩
      · unfold expirePod
        rw [heq]
        rfl
      · refine h.drop hdet _ (notMem_erase _ _) fun k hk => ?_
        rw [← hset]
        exact mem_of_mem_erase hk
      · have hk' : k ∈ c'.assumedPods := by
          rw [hset]
          exact hk
        exact mem_erase.2 ⟨hne, hk'⟩
    · exact ⟨c, rfl, h, fun _ _ hk => hk⟩

end

/-- The loop visits each assumed pod once, so the keys still to come stay assumed. -/
lemma cleanupAssumedPods_sound (now : Int) {order : List String} (hnd : order.Nodup) :
    ∀ {c : SchedulerCache}, c.Accounted → (∀ k ∈ order, k ∈ c.assumedPods) →
      ∃ c', c.cleanupAssumedPods cfg now order = .ok c' ∧ c'.Accounted := by
  induction order with
  | nil => exact fun {c} h _ => ⟨c, rfl, h⟩
  | cons key order ih =>
    intro c h hmem
    obtain ⟨hnot, hnd⟩ := nodup_cons.1 hnd
    obtain ⟨c1, heq, h1, hkeep⟩ :=
      cleanupAssumedPod_sound cfg h now (hmem key mem_cons_self)
    have hrest : ∀ k ∈ order, k ∈ c1.assumedPods := by
      intro k hk
      have hne : k ≠ key := fun hk' => hnot (hk' ▸ hk)
      exact hkeep k hne (hmem k (mem_cons_of_mem _ hk))
    obtain ⟨c', hrun, h'⟩ := ih hnd h1 hrest
    refine ⟨c', ?_, h'⟩
    unfold cleanupAssumedPods
    rw [foldlM_cons, heq]
    exact hrun

/-! ## Runs -/

/-- What the callers promise: the informer's update handler passes two versions of one
pod on one node, and a loop over `assumedPods` visits each of its keys once. -/
def Allowed (c : SchedulerCache) : Op → Prop
  | .updatePod oldPod newPod => newPod.uid = oldPod.uid ∧ newPod.nodeName = oldPod.nodeName
  | .cleanupAssumedPods _ order => order.Nodup ∧ ∀ k, k ∈ order ↔ k ∈ c.assumedPods
  | _ => True

instance (c : SchedulerCache) (op : Op) : Decidable (c.Allowed op) := by
  cases op
  case cleanupAssumedPods now order =>
    refine decidable_of_iff (order.Nodup ∧ order.toFinset = c.assumedPods) ?_
    simp [Allowed, Finset.ext_iff]
  all_goals
    unfold Allowed
    infer_instance

/-- Every allowed call ends in one of these ways. -/
theorem exec_sound (h : c.Accounted) {op : Op} (hop : c.Allowed op) :
    Sound (c.exec cfg op) := by
  cases op with
  | addNode node =>
    refine ⟨?_, by simp⟩
    rw [addNode_eq]
    exact h.withNode cfg node _ _
  | updateNode oldNode newNode =>
    refine ⟨?_, by simp⟩
    rw [updateNode_eq]
    exact h.withNode cfg newNode _ _
  | removeNode node =>
    refine ⟨h.removeNode node, fun p n => ?_⟩
    show (c.removeNode node).2 ≠ some (.pod (.noCorrespondingPod p n))
    cases hl : c.nodes.lookup node.name with
    | none => simp [removeNode, hl]
    | some info =>
      rw [removeNode_eq hl]
      cases (c.nodeTree.removeNode node).2 <;> simp
  | assumePod pod => exact assumePod_sound cfg h pod
  | finishBinding pod now => exact finishBinding_sound h pod now
  | forgetPod pod => exact forgetPod_sound cfg h pod
  | addPod pod => exact addPod_sound cfg h pod
  | updatePod oldPod newPod => exact updatePod_sound cfg h hop.1 hop.2
  | removePod pod => exact removePod_sound cfg h pod
  | cleanupAssumedPods now order =>
    obtain ⟨c', heq, h'⟩ :=
      cleanupAssumedPods_sound cfg now hop.1 h fun k hk => (hop.2 k).1 hk
    simp only [exec, heq]
    exact ⟨h', by simp⟩

/-- The cache and its callers. A call that ends the process is not a step. -/
def machine (ttl : Int) : Machine SchedulerCache Op where
  init := new ttl
  step c op :=
    if c.Allowed op then
      match c.exec cfg op with
      | .ok (c', _) => some c'
      | .error _ => none
    else none

lemma Accounted.step {op : Op} {ttl : Int} (h : c.Accounted)
    (hstep : (machine cfg ttl).step c op = some c') : c'.Accounted := by
  simp only [machine] at hstep
  split_ifs at hstep with hop
  have hsound := exec_sound cfg h hop
  split at hstep
  · rename_i heq
    rw [heq] at hsound
    cases hstep
    exact hsound.1
  · cases hstep

lemma accounted_of_reach {ttl : Int} {ops : List Op} (h : (machine cfg ttl).Reach ops c) :
    c.Accounted :=
  h.invariant Accounted (accounted_new ttl) fun _ _ _ hinv hstep => hinv.step cfg hstep

/-- All the pods of all the node infos. -/
def allPods (c : SchedulerCache) : List Pod :=
  c.nodes.entries.flatMap fun entry => entry.2.pods

lemma Accounted.nodup_allPods (h : c.Accounted) :
    (c.allPods.map uid).Nodup := by
  have hat : ∀ entry ∈ c.nodes.entries, entry.2.pods.map uid = c.keysAt entry.1 := by
    rintro ⟨name, info⟩ hmem
    exact (keysAt_of_lookup (mem_dlookup c.nodes.nodupKeys hmem)).symm
  have hne : c.nodes.entries.Pairwise fun a b => a.1 ≠ b.1 :=
    pairwise_map.1 c.nodes.nodupKeys
  rw [allPods, map_flatMap, nodup_flatMap]
  constructor
  · intro entry hmem
    rw [hat entry hmem]
    exact h.nodup entry.1
  refine hne.imp_of_mem fun {a b} ha hb hab => ?_
  -- a key on two nodes would have a state that names both
  intro k hka hkb
  dsimp only at hka hkb
  rw [hat a ha] at hka
  rw [hat b hb] at hkb
  obtain ⟨st, hst, hname⟩ := (h.holds _ k).1 hka
  exact hab (hname.symm.trans ((h.mem_keysAt hst b.1).1 hkb))

lemma Accounted.countP_allPods (h : c.Accounted) (hst : c.podStates.lookup k = some st) :
    c.allPods.countP (hasKey k) = 1 ∧
      ∃ info, c.nodes.lookup st.pod.nodeName = some info ∧ ∃ p ∈ info.pods, hasKey k p := by
  have hk := (h.keyed k st hst).2
  have hat : k ∈ c.keysAt st.pod.nodeName := (h.mem_keysAt hst _).2 rfl
  cases hl : c.nodes.lookup st.pod.nodeName with
  | none => simp [keysAt, hl] at hat
  | some info =>
    rw [keysAt_of_lookup hl] at hat
    obtain ⟨p, hp, hpk⟩ := mem_map.1 hat
    refine ⟨?_, info, rfl, p, hp, hasKey_iff.2 ⟨hpk, hk⟩⟩
    have hall : p ∈ c.allPods :=
      mem_flatMap.2 ⟨⟨_, info⟩, of_mem_dlookup hl, hp⟩
    have hcount : c.allPods.countP (hasKey k) = (c.allPods.map uid).count k := by
      rw [count, countP_map]
      refine countP_congr fun q _ => ?_
      rw [hasKey_iff]
      simp [hk]
    rw [hcount]
    exact count_eq_one_of_mem h.nodup_allPods (hpk ▸ mem_map_of_mem hall)

/-- Pod accounting, over every run. The assumed pods have states; every state's pod
occurs once among the pods of all node infos, on the node that the state names; every
pod of a node info has a state; an assumed pod whose binding is finished has a
deadline. Hence no call looks for a pod on a node that does not hold it: the only
crash is that of a pod that changed its node, and no "no corresponding pod" is
returned or reported. -/
theorem pod_accounting {ttl : Int} {ops : List Op} {c : SchedulerCache}
    (h : (machine cfg ttl).Reach ops c) :
    (∀ k ∈ c.assumedPods, k ∈ c.podStates) ∧
      (∀ k st, c.podStates.lookup k = some st →
        c.allPods.countP (hasKey k) = 1 ∧
          ∃ info, c.nodes.lookup st.pod.nodeName = some info ∧ ∃ p ∈ info.pods, hasKey k p) ∧
      (∀ name info, c.nodes.lookup name = some info → ∀ p ∈ info.pods,
        getPodKey p = .ok p.uid ∧ p.uid ∈ c.podStates) ∧
      (∀ k st, k ∈ c.assumedPods → c.podStates.lookup k = some st →
        st.bindingFinished = true → st.deadline ≠ none) ∧
      (∀ op, c.Allowed op →
        (∀ crash, c.exec cfg op = .error crash → crash = .corrupted) ∧
          ∀ c' err, c.exec cfg op = .ok (c', err) →
            c'.logged = [] ∧ ∀ p n, err ≠ some (.pod (.noCorrespondingPod p n))) := by
  have hacc := accounted_of_reach cfg h
  refine ⟨hacc.assumed, fun k st hst => hacc.countP_allPods hst, fun name info hl p hp => ?_,
    hacc.deadline, fun op hop => ⟨fun crash heq => ?_, fun c' err heq => ?_⟩⟩
  · have hat : p.uid ∈ c.keysAt name := by
      rw [keysAt_of_lookup hl]
      exact List.mem_map_of_mem hp
    obtain ⟨st, hst, -⟩ := (hacc.holds name p.uid).1 hat
    have huid := (hacc.keyed _ st hst).2
    exact ⟨by simp [getPodKey, huid], mem_iff_lookup.2 ⟨st, hst⟩⟩
  · have hsound := exec_sound cfg hacc hop
    rw [heq] at hsound
    exact hsound
  · have hsound := exec_sound cfg hacc hop
    rw [heq] at hsound
    exact ⟨hsound.1.logged, hsound.2⟩

/-- A pod is assumed on a node not yet known, confirmed on another, and a second one
expires. -/
theorem pod_accounting_relocated :
    ∃ c : SchedulerCache,
      c.podStates.keys = ["a"] ∧ c.assumedPods = ∅ ∧
        c.allPods.countP (hasKey "a") = 1 ∧ c.allPods.countP (hasKey "b") = 0 ∧
        ∀ k ∈ c.assumedPods, k ∈ c.podStates := by
  let cfg : Config := ⟨true, true, fun _ => false⟩
  let a : Pod := { uid := "a", name := "a", nodeName := "n1" }
  let b : Pod := { uid := "b", name := "b", nodeName := "n1" }
  let ops : List Op :=
    [.assumePod a, .assumePod b, .finishBinding b 0, .addNode { name := "n2" },
      .addPod { a with nodeName := "n2" }, .cleanupAssumedPods 31 ["b"]]
  have h : (machine cfg 30).Reach ops _ := (Machine.reach_iff_runFrom _).2 rfl
  have hacc := pod_accounting cfg h
  exact ⟨_, by decide, by decide, by decide, by decide, hacc.1⟩

end SchedulerCache

end Kubernetes.Scheduler
