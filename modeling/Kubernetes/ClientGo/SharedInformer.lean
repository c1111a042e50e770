import Kubernetes.ClientGo.DeltaHistory
import Kubernetes.ClientGo.ThreadSafeStore

/-! # Does the store converge to the source?

A shared informer is a `DeltaFIFO` whose known objects are the indexer and whose
process function is `HandleDeltas` (`tools/cache/shared_informer.go`), which
replays the popped deltas into the indexer (`tools/cache/store.go`). The producer
(a reflector) calls `Add`, `Update`, `Delete`, `Replace` and `Resync`. Its view of
the source, `view`, is a history variable.

Results:

1. `applied_enqueue`: what the indexer will hold for a key once the queue is
   drained is decided by the newest pending delta;
2. `converges`: in every run in which no `Replace` omits an object that is queued
   but unknown to the indexer, an empty queue means that indexer and view agree;
3. `survivor`: without that condition an object that the source has dropped stays
   in the indexer, since `Replace` looks for deletions among the known objects only.
-/

namespace Kubernetes.ClientGo

open GoMap DeltaFIFO List

variable {O : Type}

/-! ## The indexer -/

variable (key : O → String)

/-- `MetaNamespaceKeyFunc`: API objects have a key, nothing else has. -/
def metaNamespaceKeyFunc : Obj O → Except String String
  | .obj o => .ok (key o)
  | _ => .error "object has no meta"

def deletionHandlingMetaNamespaceKeyFunc : Obj O → Except String String
  | .deletedFinalStateUnknown k _ => .ok k
  | obj => metaNamespaceKeyFunc key obj

lemma keyOf_metaNamespaceKeyFunc (obj : Obj O) :
    keyOf (metaNamespaceKeyFunc key) obj =
      deletionHandlingMetaNamespaceKeyFunc key obj := by
  cases obj <;> rfl

/-- What an indexer operation can end with: a `KeyError`, or the panic of an index function. -/
inductive StoreError (O : Type) where
  | key (obj : Obj O) (err : String)
  | panic (p : IndexPanic)

/-- The notifications that `HandleDeltas` distributes. -/
inductive Notification (O : Type) where
  | update (oldObj newObj : Obj O) (isSync : Bool)
  | add (newObj : Obj O)
  | delete (oldObj : Obj O)

/-- The storage of the indexer. -/
abbrev Indexer (O : Type) := ThreadSafeMap (Obj O)

namespace Indexer

variable (c : Indexer O) (obj : Obj O)

/-- The key of `obj`, or the `KeyError` that every operation returns without one. -/
def keyOrError : Except (StoreError O) String :=
  (deletionHandlingMetaNamespaceKeyFunc key obj).mapError (.key obj)

def add : Except (StoreError O) (Indexer O) := do
  let k ← keyOrError key obj
  (ThreadSafeMap.add c k obj).mapError .panic

def update : Except (StoreError O) (Indexer O) := do
  let k ← keyOrError key obj
  (ThreadSafeMap.update c k obj).mapError .panic

def delete : Except (StoreError O) (Indexer O) := do
  let k ← keyOrError key obj
  (ThreadSafeMap.delete c k).mapError .panic

def get : Except (StoreError O) (Option (Obj O)) := do
  let k ← keyOrError key obj
  return c.items.lookup k

/-- The indexer as the known objects of the queue; `order` is the order in which
`ListKeys` ranges over the items. -/
def known (order : List String) : KeyListerGetter O where
  listKeys := order
  getByKey k := .ok (c.items.lookup k)

end Indexer

/-! ## HandleDeltas -/

variable (resourceVersion : Obj O → Option String)

/-- Whether an update is only for listeners that requested resync. The resource
version is missing if the object has no metadata. -/
def isSync (d : Delta O) (old : Obj O) : Bool :=
  match d.type with
  | .sync => true
  | .replaced =>
    match resourceVersion d.object, resourceVersion old with
    | some v, some v' => v = v'
    | _, _ => false
  | _ => false

/-- The loop body of `HandleDeltas`. -/
def handleDelta (c : Indexer O) (d : Delta O) :
    Except (StoreError O) (Indexer O × Notification O) :=
  match d.type with
  | .deleted => do
    let c ← Indexer.delete key c d.object
    return (c, .delete d.object)
  | _ =>
    match Indexer.get key c d.object with
    | .ok (some old) => do
      let c ← Indexer.update key c d.object
      return (c, .update old d.object (isSync resourceVersion d old))
    | _ => do
      let c ← Indexer.add key c d.object
      return (c, .add d.object)

/-- `HandleDeltas`, from oldest to newest. -/
def handleDeltas : Indexer O → Deltas O → Except (StoreError O) (Indexer O × List (Notification O))
  | c, [] => .ok (c, [])
  | c, d :: ds => do
    let (c, n) ← handleDelta key resourceVersion c d
    let (c, ns) ← handleDeltas c ds
    return (c, n :: ns)

/-! ## The informer and its producer -/

/-- The informer, the notifications it has distributed, and the producer's view. -/
structure Informer (O : Type) where
  fifo : DeltaFIFO O
  indexer : Indexer O
  distributed : List (Notification O)
  view : GoMap String (Obj O)

/-- One call of the producer, or a pop. The order is the one in which `ListKeys`
returns the keys of the indexer. -/
inductive InformerOp (O : Type) where
  | add (o : O)
  | update (o : O)
  | delete (obj : Obj O)
  | replace (order : List String) (list : List O)
  | resync (order : List String)
  | pop

namespace Informer

/-- `m` with the objects of `list` set one after the other. -/
def setAll (m : GoMap String (Obj O)) (list : List O) : GoMap String (Obj O) :=
  list.foldl (fun m o => m.insert (key o) (.obj o)) m

/-- The view after `Delete(obj)`. -/
def viewDelete (view : GoMap String (Obj O)) (obj : Obj O) : GoMap String (Obj O) :=
  match deletionHandlingMetaNamespaceKeyFunc key obj with
  | .ok k => view.erase k
  | .error _ => view

/-- A pop is enabled when the queue is not empty and `HandleDeltas` succeeds. -/
def step (s : Informer O) : InformerOp O → Option (Informer O)
  | .add o =>
    some { s with
      fifo := (s.fifo.add (metaNamespaceKeyFunc key) (.obj o)).1
      view := s.view.insert (key o) (.obj o) }
  | .update o =>
    some { s with
      fifo := (s.fifo.update (metaNamespaceKeyFunc key) (.obj o)).1
      view := s.view.insert (key o) (.obj o) }
  | .delete obj =>
    some { s with
      fifo := (s.fifo.delete (metaNamespaceKeyFunc key) (some (s.indexer.known [])) obj).1
      view := viewDelete key s.view obj }
  | .replace order list =>
    if order.Perm s.indexer.items.keys then
      some { s with
        fifo := (s.fifo.replace (metaNamespaceKeyFunc key) (some (s.indexer.known order)) []
          (list.map .obj)).1
        view := setAll key ∅ list }
    else none
  | .resync order =>
    if order.Perm s.indexer.items.keys then
      some { s with
        fifo := (s.fifo.resync (metaNamespaceKeyFunc key) (some (s.indexer.known order))).1 }
    else none
  | .pop => do
    let (item, fifo) ← s.fifo.pop fun _ => false
    let (indexer, ns) ← (handleDeltas key resourceVersion s.indexer item).toOption
    return { s with fifo := fifo, indexer := indexer, distributed := s.distributed ++ ns }

/-- A new informer with its registered indexers. -/
def machine (emitDeltaTypeReplaced : Bool) (indexers : Indexers (Obj O)) :
    Machine (Informer O) (InformerOp O) where
  init := ⟨.new emitDeltaTypeReplaced, ⟨∅, indexers, ∅⟩, [], ∅⟩
  step := step key resourceVersion

end Informer

/-! ## What the pending deltas will do -/

/-- What the indexer holds for a key after handling a delta of that key. -/
def Delta.effect (d : Delta O) : Option (Obj O) :=
  if d.type = .deleted then none else some d.object

/-- What the indexer will hold for `k` once the pending deltas are handled, if it
holds `old` now. -/
def DeltaFIFO.applied (f : DeltaFIFO O) (old : Option (Obj O)) (k : String) : Option (Obj O) :=
  (f.pending k).foldl (fun _ d => d.effect) old

open Delta

/-- Deduplication keeps the effect of the newest delta. -/
lemma foldl_effect_dedupDeltas (l : Deltas O) (d : Delta O) (old : Option (Obj O)) :
    (dedupDeltas (l ++ [d])).foldl (fun _ d => d.effect) old = d.effect := by
  induction l using reverseRecOn with
  | nil => rfl
  | append_singleton l b _ =>
    rw [dedupDeltas_append]
    cases hd : isDup d b with
    | none => simp
    | some out =>
      have hdel : d.type = .deleted := by
        unfold isDup isDeletionDup at hd
        grind
      simp [effect, isDup_type hd, hdel]

/-- An object held after some deltas was held before or comes from one of them. -/
lemma foldl_effect_eq_some {ds : Deltas O} {old : Option (Obj O)} {obj : Obj O}
    (h : ds.foldl (fun _ d => d.effect) old = some obj) :
    old = some obj ∨ ∃ d ∈ ds, d.object = obj := by
  induction ds using reverseRecOn with
  | nil => exact .inl h
  | append_singleton ds d _ =>
    have hd : d.effect = some obj := by simpa using h
    unfold effect at hd
    split_ifs at hd
    cases hd
    exact .inr ⟨d, by simp, rfl⟩

lemma mem_dedupDeltas {l : Deltas O} {d x : Delta O} (h : x ∈ dedupDeltas (l ++ [d])) :
    x ∈ l ∨ x = d := by
  induction l using reverseRecOn with
  | nil => simpa [dedupDeltas_singleton] using h
  | append_singleton l b _ =>
    rw [dedupDeltas_append] at h
    cases hd : isDup d b with
    | none => simpa [hd, or_assoc] using h
    | some out =>
      have hout : out = d ∨ out = b := by
        unfold isDup isDeletionDup at hd
        grind
      simp only [hd, mem_append, mem_singleton] at h ⊢
      rcases h with h | rfl
      · exact .inl (.inl h)
      · exact hout.elim .inr fun hb => .inl (.inr hb)

namespace DeltaFIFO

theorem applied_enqueue (f : DeltaFIFO O) (id : String) (d : Delta O) (old : Option (Obj O))
    (k : String) :
    (f.enqueue id d).applied old k = if k = id then d.effect else f.applied old k := by
  unfold applied
  rw [pending_insert (enqueue_items f id d)]
  split
  · exact foldl_effect_dedupDeltas _ d old
  · rfl

variable {f : DeltaFIFO O}

lemma applied_of_not_mem {k : String} (h : k ∉ f.items) (old : Option (Obj O)) :
    f.applied old k = old := by
  simp [applied, pending, AList.lookup_eq_none.2 h]

/-- The queue is well formed, and each delta is stored under its object's key. -/
structure Keyed (keyFunc : Obj O → Except String String) (f : DeltaFIFO O) : Prop where
  wf : f.WellFormed
  key : ∀ k ds, f.items.lookup k = some ds → ∀ d ∈ ds, keyOf keyFunc d.object = .ok k

variable {keyFunc : Obj O → Except String String}

lemma Keyed.counters (h : f.Keyed keyFunc) (b : Bool) (n : Nat) :
    Keyed keyFunc { f with populated := b, initialPopulationCount := n } :=
  ⟨⟨h.wf.nodup, h.wf.mem_queue, h.wf.nonempty⟩, h.key⟩

lemma Keyed.enqueue (h : f.Keyed keyFunc) {id : String} {d : Delta O}
    (hd : keyOf keyFunc d.object = .ok id) : (f.enqueue id d).Keyed keyFunc := by
  refine ⟨h.wf.enqueue id d, fun k ds hl x hx => ?_⟩
  rw [enqueue_items, lookup_insert_if] at hl
  split_ifs at hl with hk
  · cases hl
    rw [hk]
    rcases mem_dedupDeltas hx with hx | rfl
    · cases hold : f.items.lookup id with
      | none => simp [hold] at hx
      | some old => exact h.key id old hold x (by simpa [hold] using hx)
    · exact hd
  · exact h.key k ds hl x hx

end DeltaFIFO

/-! ## The loops of Replace and Resync -/

variable {key} {resourceVersion}

namespace DeltaFIFO

lemma keyOf_obj (o : O) : keyOf (metaNamespaceKeyFunc key) (.obj o) = .ok (key o) := rfl

lemma keyOf_deletedFinalStateUnknown (key : O → String) (k : String) (obj : Obj O) :
    keyOf (metaNamespaceKeyFunc key) (.deletedFinalStateUnknown k obj) = .ok k := rfl

open Informer

lemma lookup_setAll (list : List O) (m : GoMap String (Obj O)) {k : String}
    (hk : k ∉ list.map key) : (setAll key m list).lookup k = m.lookup k := by
  induction list generalizing m with
  | nil => rfl
  | cons o list ih =>
    rw [map_cons, mem_cons, not_or] at hk
    have hset : setAll key m (o :: list) =
        setAll key (m.insert (key o) (.obj o)) list := rfl
    rw [hset, ih _ hk.2, lookup_insert_if, if_neg hk.1]

variable {f : DeltaFIFO O}

lemma replaceItems_spec {action : DeltaType} (ha : action ≠ .deleted) (list : List O)
    (hf : f.Keyed (metaNamespaceKeyFunc key)) (keys : Finset String) :
    ∃ g keys', replaceItems (metaNamespaceKeyFunc key) action (list.map .obj) f keys
        = (g, .ok keys') ∧
      g.Keyed (metaNamespaceKeyFunc key) ∧ (∀ k, k ∈ keys' ↔ k ∈ keys ∨ k ∈ list.map key) ∧
      ∀ old k m, g.applied old k =
        if k ∈ list.map key then (setAll key m list).lookup k else f.applied old k := by
  induction list generalizing f keys with
  | nil => exact ⟨f, keys, rfl, hf, by simp, by simp⟩
  | cons o list ih =>
    obtain ⟨g, keys', heq, hg, hkeys, happ⟩ :=
      ih (hf.enqueue (d := ⟨action, .obj o⟩) (keyOf_obj o)) (insert (key o) keys)
    refine ⟨g, keys', ?_, hg, fun k => ?_, fun old k m => ?_⟩
    · rw [map_cons, replaceItems, keyOf_obj]
      simp only [queueActionLocked_ok _ (keyOf_obj o)]
      exact heq
    · rw [hkeys, Finset.mem_insert, map_cons, mem_cons]
      tauto
    have hset : setAll key m (o :: list) =
        setAll key (m.insert (key o) (.obj o)) list := rfl
    rw [happ old k (m.insert (key o) (.obj o)), map_cons, hset]
    by_cases hk : k ∈ list.map key
    · rw [if_pos hk, if_pos (mem_cons_of_mem _ hk)]
    rw [if_neg hk, lookup_setAll list _ hk, lookup_insert_if, applied_enqueue]
    by_cases hko : k = key o
    · rw [if_pos hko, if_pos (by simp [hko]), if_pos hko]
      simp [effect, ha]
    · rw [if_neg hko, if_neg]
      simpa [hko] using hk

lemma replaceDeletions_spec (keys : Finset String) (current : DeltaFIFO O → String → Obj O)
    (ks : List String) (hf : f.Keyed (metaNamespaceKeyFunc key)) (n : Nat) :
    ∃ g n', replaceDeletions (metaNamespaceKeyFunc key) keys current ks f n = (g, .ok n') ∧
      g.Keyed (metaNamespaceKeyFunc key) ∧
      ∀ old k, g.applied old k = if k ∈ ks ∧ k ∉ keys then none else f.applied old k := by
  induction ks generalizing f n with
  | nil => exact ⟨f, n, rfl, hf, by simp⟩
  | cons k0 ks ih =>
    unfold replaceDeletions
    split_ifs with hk0
    · obtain ⟨g, n', heq, hg, happ⟩ := ih hf n
      refine ⟨g, n', heq, hg, fun old k => ?_⟩
      rw [happ]
      by_cases hk : k = k0 <;> simp [hk, hk0]
    have hdel := keyOf_deletedFinalStateUnknown key k0 (current f k0)
    obtain ⟨g, n', heq, hg, happ⟩ :=
      ih (hf.enqueue (d := ⟨.deleted, .deletedFinalStateUnknown k0 (current f k0)⟩) hdel) (n + 1)
    simp only [queueActionLocked_ok _ hdel]
    refine ⟨g, n', heq, hg, fun old k => ?_⟩
    rw [happ, applied_enqueue]
    by_cases hk : k = k0
    · simp [hk, hk0, effect]
    · simp [hk]

/-- `Replace` with the indexer as known objects: a listed key ends with its last
listed object, an unlisted key that the indexer knows is deleted, and any other
key keeps what is pending for it. -/
lemma replace_spec (c : Indexer O) (order : List String) (list : List O)
    (hf : f.Keyed (metaNamespaceKeyFunc key)) :
    ∃ g, f.replace (metaNamespaceKeyFunc key) (some (c.known order)) [] (list.map .obj)
        = (g, none) ∧
      g.Keyed (metaNamespaceKeyFunc key) ∧
      ∀ old k, g.applied old k =
        if k ∈ list.map key then (setAll key ∅ list).lookup k
        else if k ∈ order then none else f.applied old k := by
  have ha : (if f.emitDeltaTypeReplaced then DeltaType.replaced else .sync) ≠ .deleted := by
    split <;> decide
  obtain ⟨g, keys, hitems, hg, hkeys, happ⟩ := replaceItems_spec ha list hf ∅
  obtain ⟨g', n, hdels, hg', happ'⟩ :=
    replaceDeletions_spec keys (fun _ => currentKnown (c.known order)) order hg 0
  have hdetect : detectDeletions (metaNamespaceKeyFunc key) (some (c.known order)) [] keys g
      = (g', .ok n) := hdels
  have hspec : ∀ old k, g'.applied old k =
      if k ∈ list.map key then (setAll key ∅ list).lookup k
      else if k ∈ order then none else f.applied old k := by
    intro old k
    have hk := hkeys k
    rw [happ', happ old k ∅]
    by_cases hl : k ∈ list.map key
    · rw [if_neg (by tauto), if_pos hl, if_pos hl]
    · have hnot : k ∉ keys := by simpa [hl] using hk
      simp [hl, hnot]
  unfold replace
  simp only [hitems, hdetect]
  split
  · exact ⟨g', rfl, hg', hspec⟩
  · exact ⟨_, rfl, hg'.counters _ _, hspec⟩

open Indexer

/-- `Resync` enqueues what the indexer holds, for keys without pending deltas. -/
lemma syncKeys_spec {c : Indexer O} (order : List String)
    (hc : ∀ k obj, c.items.lookup k = some obj →
      keyOf (metaNamespaceKeyFunc key) obj = .ok k) (ks : List String)
    (hf : f.Keyed (metaNamespaceKeyFunc key)) :
    ∃ g, syncKeys (metaNamespaceKeyFunc key) (c.known order) ks f = (g, none) ∧
      g.Keyed (metaNamespaceKeyFunc key) ∧
      ∀ k, g.applied (c.items.lookup k) k = f.applied (c.items.lookup k) k := by
  induction ks generalizing f with
  | nil => exact ⟨f, rfl, hf, fun _ => rfl⟩
  | cons k0 ks ih =>
    unfold syncKeys syncKeyLocked
    cases hl : c.items.lookup k0 with
    | none =>
      simp only [known, hl]
      exact ih hf
    | some obj =>
      have hkey := hc k0 obj hl
      simp only [known, hl, hkey, queueActionLocked_ok _ hkey]
      by_cases hlen : 0 < ((f.items.lookup k0).getD []).length
      · simp only [if_pos hlen]
        exact ih hf
      simp only [if_neg hlen]
      obtain ⟨g, heq, hg, happ⟩ := ih (hf.enqueue (d := ⟨.sync, obj⟩) hkey)
      refine ⟨g, heq, hg, fun k => ?_⟩
      rw [happ, applied_enqueue]
      split_ifs with hk
      · have hnil : f.pending k0 = [] := by
          simpa [pending] using hlen
        rw [hk, applied, hnil, hl]
        rfl
      · rfl

end DeltaFIFO

/-! ## Handling deltas -/

variable {k : String}

lemma keyOrError_eq_ok {obj : Obj O} (h : deletionHandlingMetaNamespaceKeyFunc key obj = .ok k) :
    Indexer.keyOrError key obj = .ok k := by
  simp [Indexer.keyOrError, h, Except.mapError]

lemma handleDelta_spec {c c' : Indexer O} {d : Delta O} {n : Notification O}
    (hk : deletionHandlingMetaNamespaceKeyFunc key d.object = .ok k)
    (h : handleDelta key resourceVersion c d = .ok (c', n)) (k' : String) :
    c'.items.lookup k' = if k' = k then d.effect else c.items.lookup k' := by
  have hkey := keyOrError_eq_ok hk
  unfold handleDelta at h
  by_cases hd : d.type = .deleted
  · simp only [hd, Indexer.delete, hkey] at h
    obtain ⟨c1, hdel, hret⟩ := bind_eq_ok.1 h
    cases hret
    rw [ThreadSafeMap.delete_items (mapError_eq_ok.1 hdel)]
    simp [effect, hd]
  -- `Add` and `Update` store the object alike
  have hstore : ∃ c1, ThreadSafeMap.add c k d.object = .ok c1 ∧ c1 = c' := by
    split at h
    · exact absurd ‹d.type = .deleted› hd
    split at h
    · simp only [Indexer.update, hkey] at h
      obtain ⟨c1, hupd, hret⟩ := bind_eq_ok.1 h
      cases hret
      exact ⟨_, mapError_eq_ok.1 hupd, rfl⟩
    · simp only [Indexer.add, hkey] at h
      obtain ⟨c1, hadd, hret⟩ := bind_eq_ok.1 h
      cases hret
      exact ⟨_, mapError_eq_ok.1 hadd, rfl⟩
  obtain ⟨c1, hadd, rfl⟩ := hstore
  rw [ThreadSafeMap.add_items hadd, lookup_insert_if]
  simp [effect, hd]

lemma handleDeltas_spec {ds : Deltas O}
    (hk : ∀ d ∈ ds, deletionHandlingMetaNamespaceKeyFunc key d.object = .ok k) {c c' : Indexer O}
    {ns : List (Notification O)} (h : handleDeltas key resourceVersion c ds = .ok (c', ns))
    (k' : String) :
    c'.items.lookup k' =
      if k' = k then ds.foldl (fun _ d => d.effect) (c.items.lookup k') else c.items.lookup k' := by
  induction ds generalizing c ns with
  | nil =>
    cases h
    simp
  | cons d ds ih =>
    unfold handleDeltas at h
    obtain ⟨⟨c1, n⟩, hd, hrest⟩ := bind_eq_ok.1 h
    obtain ⟨⟨c2, ns2⟩, hds, hret⟩ := bind_eq_ok.1 hrest
    cases hret
    have hone := handleDelta_spec (hk d mem_cons_self) hd k'
    rw [ih (forall_mem_cons.1 hk).2 hds, hone, foldl_cons]
    by_cases hkk : k' = k <;> simp [hkk]

/-! ## Convergence -/

namespace Informer

/-- What the indexer will hold for `k` once the queue is drained. -/
def settled (s : Informer O) (k : String) : Option (Obj O) :=
  s.fifo.applied (s.indexer.items.lookup k) k

/-- Once the queue is drained the indexer will hold the producer's view. -/
structure Synced (key : O → String) (s : Informer O) : Prop where
  queued : s.fifo.Keyed (metaNamespaceKeyFunc key)
  stored : ∀ k obj, s.indexer.items.lookup k = some obj →
    keyOf (metaNamespaceKeyFunc key) obj = .ok k
  settled : ∀ k, s.settled k = s.view.lookup k

/-- The condition under which `Replace` notices every deletion: an omitted key
that the indexer does not know is not queued, or its newest delta is a deletion. -/
def NoQueuedSurvivor (key : O → String) (s : Informer O) : InformerOp O → Prop
  | .replace _ list =>
    ∀ e ∈ s.fifo.items.entries, e.1 ∉ list.map key → e.1 ∉ s.indexer.items →
      ∀ d ∈ e.2.getLast?, d.type = .deleted
  | _ => True

instance (key : O → String) (s : Informer O) (op : InformerOp O) :
    Decidable (NoQueuedSurvivor key s op) := by
  unfold NoQueuedSurvivor
  split <;> infer_instance

variable {s : Informer O}

/-- A newest delta decides what the indexer will hold. -/
lemma settled_of_newest {ds : Deltas O} {d : Delta O} (hl : s.fifo.items.lookup k = some ds)
    (hd : ds.getLast? = some d) :
    s.settled k = d.effect := by
  obtain ⟨l, rfl⟩ := getLast?_eq_some_iff.1 hd
  simp [settled, applied, pending, hl]

lemma settled_of_not_mem (h : k ∉ s.fifo.items) :
    s.settled k = s.indexer.items.lookup k :=
  applied_of_not_mem h _

/-- Under the condition, a key that is neither listed nor known will not be held. -/
lemma settled_eq_none (hs : s.Synced key) {order : List String} {list : List O}
    (hok : NoQueuedSurvivor key s (.replace order list)) (hl : k ∉ list.map key)
    (hk : k ∉ s.indexer.items) : s.settled k = none := by
  cases hq : s.fifo.items.lookup k with
  | none => rw [settled_of_not_mem (AList.lookup_eq_none.1 hq), AList.lookup_eq_none.2 hk]
  | some ds =>
    have hne := hs.queued.wf.nonempty k ds hq
    obtain ⟨d, hd⟩ : ∃ d, ds.getLast? = some d := ⟨_, getLast?_eq_some_getLast hne⟩
    have hdel := hok ⟨k, ds⟩ (of_mem_dlookup hq) hl hk d hd
    rw [settled_of_newest hq hd]
    simp [effect, hdel]

/-! One lemma for each call. -/

lemma Synced.set (hs : s.Synced key) (o : O) {t : DeltaType} (ht : t ≠ .deleted) :
    Synced key { s with
      fifo := (queueActionLocked (metaNamespaceKeyFunc key)
        { s.fifo with populated := true } t (.obj o)).1
      view := s.view.insert (key o) (.obj o) } := by
  rw [queueActionLocked_ok _ (keyOf_obj o)]
  refine ⟨(hs.queued.counters true _).enqueue (keyOf_obj o), hs.stored, fun k => ?_⟩
  rw [Informer.settled, applied_enqueue, lookup_insert_if]
  split
  · simp [Delta.effect, ht]
  · exact hs.settled k

lemma Synced.delete (hs : s.Synced key) (obj : Obj O) :
    Synced key { s with
      fifo := (s.fifo.delete (metaNamespaceKeyFunc key) (some (s.indexer.known [])) obj).1
      view := viewDelete key s.view obj } := by
  unfold DeltaFIFO.delete viewDelete
  rw [← keyOf_metaNamespaceKeyFunc]
  cases hk : keyOf (metaNamespaceKeyFunc key) obj with
  | error err => exact ⟨hs.queued, hs.stored, hs.settled⟩
  | ok id =>
    dsimp only
    split_ifs with hign
    · -- neither queued nor known, so the view has no entry either
      refine ⟨hs.queued.counters true _, hs.stored, fun k => ?_⟩
      rw [lookup_erase_if]
      split_ifs with hkid
      · have hnone : s.indexer.items.lookup id = none ∧ id ∉ s.fifo.items := by
          unfold deleteIgnored Indexer.known at hign
          cases hl : s.indexer.items.lookup id <;> simp_all
        subst hkid
        exact (settled_of_not_mem hnone.2).trans hnone.1
      · exact hs.settled k
    · rw [queueActionLocked_ok _ hk]
      refine ⟨(hs.queued.counters true _).enqueue hk, hs.stored, fun k => ?_⟩
      rw [Informer.settled, applied_enqueue, lookup_erase_if]
      split
      · simp [Delta.effect]
      · exact hs.settled k

lemma Synced.replace (hs : s.Synced key) {order : List String} {list : List O}
    (horder : order.Perm s.indexer.items.keys)
    (hok : NoQueuedSurvivor key s (.replace order list)) :
    Synced key { s with
      fifo := (s.fifo.replace (metaNamespaceKeyFunc key) (some (s.indexer.known order)) []
        (list.map .obj)).1
      view := setAll key ∅ list } := by
  obtain ⟨g, heq, hg, happ⟩ := replace_spec s.indexer order list hs.queued
  rw [heq]
  refine ⟨hg, hs.stored, fun k => ?_⟩
  rw [Informer.settled, happ]
  by_cases hl : k ∈ list.map key
  · rw [if_pos hl]
  rw [if_neg hl, lookup_setAll list _ hl]
  split_ifs with hk
  · rfl
  · exact settled_eq_none hs hok hl fun h => hk (horder.mem_iff.2 (AList.mem_keys.1 h))

lemma Synced.resync (hs : s.Synced key) (order : List String) :
    Synced key { s with
      fifo := (s.fifo.resync (metaNamespaceKeyFunc key) (some (s.indexer.known order))).1 } := by
  obtain ⟨g, heq, hg, happ⟩ := syncKeys_spec order hs.stored order hs.queued
  have hres : s.fifo.resync (metaNamespaceKeyFunc key) (some (s.indexer.known order))
      = (g, none) := heq
  rw [hres]
  exact ⟨hg, hs.stored, fun k => (happ k).trans (hs.settled k)⟩

/-- A pop moves the effect of the deltas from the queue to the indexer. -/
lemma Synced.pop {s' : Informer O} (hs : s.Synced key)
    (h : step key resourceVersion s .pop = some s') : Synced key s' := by
  obtain ⟨⟨item, g⟩, hpop, hrest⟩ := Option.bind_eq_some_iff.1 h
  obtain ⟨⟨c, ns⟩, hhandle, hret⟩ := Option.bind_eq_some_iff.1 hrest
  cases hret
  have hok : handleDeltas key resourceVersion s.indexer item = .ok (c, ns) := by
    cases hr : handleDeltas key resourceVersion s.indexer item with
    | error err => simp [hr, Except.toOption] at hhandle
    | ok r =>
      rw [hr] at hhandle
      cases hhandle
      rfl
  obtain ⟨id, queue, hq, hl, hg⟩ := pop_spec hs.queued.wf hpop
  have hitems : g.items = s.fifo.items.erase id := by simp [hg]
  have hkeys : ∀ d ∈ item, deletionHandlingMetaNamespaceKeyFunc key d.object = .ok id := by
    intro d hd
    rw [← keyOf_metaNamespaceKeyFunc]
    exact hs.queued.key id item hl d hd
  have hlookup := handleDeltas_spec hkeys hok
  -- the indexer now holds for every key what it would have held for `id`
  have hsettle : ∀ k, g.applied (c.items.lookup k) k = s.settled k := by
    intro k
    rw [applied, pending_erase hitems, hlookup k]
    by_cases hk : k = id
    · subst hk
      simp [Informer.settled, applied, pending, hl]
    · simp [hk, Informer.settled, applied]
  refine ⟨⟨?_, ?_⟩, ?_, fun k => (hsettle k).trans (hs.settled k)⟩
  · have hwf : ({ s.fifo with
        initialPopulationCount := s.fifo.initialPopulationCount - 1 }).WellFormed :=
      (hs.queued.counters s.fifo.populated _).wf
    rw [hg, if_neg (by decide)]
    exact hwf.take hq item false
  · intro k ds hds d hd
    rw [hitems, lookup_erase_if] at hds
    split_ifs at hds
    exact hs.queued.key k ds hds d hd
  · intro k obj hobj
    rw [hlookup k] at hobj
    split_ifs at hobj with hk
    · rcases foldl_effect_eq_some hobj with hold | ⟨d, hd, rfl⟩
      · exact hs.stored k obj hold
      · rw [hk]
        exact hs.queued.key id item hl d hd
    · exact hs.stored k obj hobj

lemma Synced.step {s' : Informer O} {op : InformerOp O} (hs : s.Synced key)
    (hok : NoQueuedSurvivor key s op) (h : step key resourceVersion s op = some s') :
    Synced key s' := by
  cases op with
  | add o =>
    cases h
    exact hs.set o (by decide)
  | update o =>
    cases h
    exact hs.set o (by decide)
  | delete obj =>
    cases h
    exact hs.delete obj
  | replace order list =>
    simp only [Informer.step] at h
    split_ifs at h
    cases h
    exact hs.replace ‹_› hok
  | resync order =>
    simp only [Informer.step] at h
    split_ifs at h
    cases h
    exact hs.resync order
  | pop => exact hs.pop h

lemma synced_init (emit : Bool) (indexers : Indexers (Obj O)) :
    Synced key (machine key resourceVersion emit indexers).init where
  queued := ⟨wellFormed_new emit, fun k ds h => by simp [machine, new] at h⟩
  stored k obj h := by simp [machine] at h
  settled k := rfl

/-- In every run in which no `Replace` omits an object that is queued but unknown
to the indexer, the indexer holds exactly the producer's view whenever the queue
is empty. -/
theorem converges {emit : Bool} {indexers : Indexers (Obj O)} {tr : List (InformerOp O)}
    {s : Informer O}
    (h : (machine key resourceVersion emit indexers).ReachWhen (NoQueuedSurvivor key) tr s)
    (hq : s.fifo.queue = []) (k : String) :
    s.indexer.items.lookup k = s.view.lookup k := by
  have hs := h.invariant (Synced key) (synced_init emit indexers)
    fun s op s' hs hok hstep => hs.step hok hstep
  have hnot : k ∉ s.fifo.items := by
    rw [← hs.queued.wf.mem_queue, hq]
    exact not_mem_nil
  rw [← hs.settled k, settled_of_not_mem hnot]

/-- A listed and a watched object, a relist that drops one of them after both are
known, and a resync. -/
def relistRun : List (InformerOp String) :=
  [.add "x", .replace [] ["x", "y"], .pop, .pop, .resync ["x", "y"], .replace ["x", "y"] ["y"],
    .pop, .pop]

theorem converges_relist :
    ∃ s, (machine (fun o : String => o) (fun _ => none) true ∅).ReachWhen
        (NoQueuedSurvivor fun o => o) relistRun s ∧
      s.fifo.queue = [] ∧ s.view.lookup "x" = none ∧
      s.indexer.items.lookup "y" = s.view.lookup "y" :=
  have h : (machine (fun o : String => o) (fun _ => none) true ∅).ReachWhen
      (NoQueuedSurvivor fun o => o) relistRun _ := Machine.reachWhen_of_runWhen _ rfl
  ⟨_, h, by decide, by decide, converges h (by decide) "y"⟩

/-- An object is added, and a relist that no longer has it comes before its pop:
`Replace` finds no deletion, since the indexer does not know the object yet. -/
def survivorRun : List (InformerOp String) := [.add "x", .replace [] [], .pop]

theorem survivor :
    ∃ s, (machine (fun o : String => o) (fun _ => none) true ∅).Reach survivorRun s ∧
      s.fifo.queue = [] ∧ s.view.lookup "x" = none ∧
      s.indexer.items.lookup "x" = some (.obj "x") :=
  ⟨_, (Machine.reach_iff_runFrom _).2 rfl, by decide, by decide, by decide⟩

end Informer

end Kubernetes.ClientGo
