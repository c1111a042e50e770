import Kubernetes.Apiserver.WatchCache
import Kubernetes.ChangeLog

/-! # What a watcher is told of a change

A model of `convertToWatchEvent` in `cacher.go`. The conversion looks at the object and at its
previous version: an object that starts to pass the filter of the watcher is added, one that
stops to pass it is deleted, with its previous content and the version of the event.

A list of changes is a `Chain` from a state if each change was made in the state that those
before it lead to. Converted to watch events, a chain is a list of notices of a change log
(`notices_chain`), so replaying the watch events follows the filtered state. The additions that
a watch from version 0 starts with are a chain from the empty state (`chain_additions`).
-/

namespace Kubernetes.Apiserver

open ChangeLog GoMap List Option Function

/-- `watch.Event`. The version is that of the event of the cache from which it was made. -/
inductive WatchEvent (O : Type) where
  | added (object : O) (resourceVersion : ℕ)
  | modified (object : O) (resourceVersion : ℕ)
  | deleted (object : O) (resourceVersion : ℕ)
  | bookmark (object : O) (resourceVersion : ℕ)
deriving DecidableEq

variable {O : Type}

namespace WatchEvent

def resourceVersion : WatchEvent O → ℕ
  | .added _ rv => rv
  | .modified _ rv => rv
  | .deleted _ rv => rv
  | .bookmark _ rv => rv

def isBookmark : WatchEvent O → Bool
  | .bookmark _ _ => true
  | _ => false

/-- What a client learns from a watch event: it knows objects by their key. -/
def notice (cfg : Config O) : WatchEvent O → Option (Notice String O)
  | .added o _ => some (.added (cfg.keyFunc o) o)
  | .modified o _ => some (.modified (cfg.keyFunc o) o)
  | .deleted o _ => some (.deleted (cfg.keyFunc o))
  | .bookmark _ _ => none

end WatchEvent

variable (cfg : Config O) (filter : Filter)

/-- `convertToWatchEvent`, for an event that is not a bookmark. -/
def convertChange (event : Change O) : Option (WatchEvent O) :=
  let curObjPasses :=
    event.type != .deleted && filter event.key event.objLabels event.objFields
  let oldObjPasses := event.previous.any fun prev => filter event.key prev.labels prev.fields
  if curObjPasses && !oldObjPasses then some (.added event.object event.resourceVersion)
  else if curObjPasses && oldObjPasses then some (.modified event.object event.resourceVersion)
  else if !curObjPasses && oldObjPasses then
    event.previous.map fun prev =>
      .deleted (cfg.updateObject prev.object event.resourceVersion) event.resourceVersion
  else none

/-- `convertToWatchEvent`. The object of a bookmark is empty but for its version. -/
def convertToWatchEvent : WatchCacheEvent O → Option (WatchEvent O)
  | .bookmark rv => some (.bookmark (cfg.updateObject cfg.newFunc rv) rv)
  | .change c => convertChange cfg filter c

variable (store : GoMap String (StoreElement O))

def objects : String → Option O :=
  fun key => (store.lookup key).map (·.object)

/-- Whether an object passes a filter. -/
def passes : String → O → Bool :=
  fun key o => filter key (cfg.getAttrs o).1 (cfg.getAttrs o).2

/-- What a change does to the state. -/
def Change.update (c : Change O) : Update String O :=
  match c.type with
  | .added => .put c.key c.object
  | .modified => .put c.key c.object
  | .deleted => .remove c.key

/-- The state after a list of changes. -/
def after (m : String → Option O) (log : List (Change O)) : String → Option O :=
  content m (log.map Change.update)

/-- The elements of a store are those of its objects, under their keys. -/
def WellKeyed : Prop :=
  ∀ key elem, store.lookup key = some elem → elem = cfg.element elem.object ∧ elem.key = key

/-- The change was made in the state `m`. -/
structure Made (m : String → Option O) (c : Change O) : Prop where
  key_eq : c.key = cfg.keyFunc c.object
  labels_eq : c.objLabels = (cfg.getAttrs c.object).1
  fields_eq : c.objFields = (cfg.getAttrs c.object).2
  previous_eq : c.previous = (m c.key).map cfg.element
  keyed : ∀ o, m c.key = some o → cfg.keyFunc o = c.key

/-- Each change was made in the state that those before it lead to. -/
def Chain (m : String → Option O) : List (Change O) → Prop
  | [] => True
  | c :: log => Made cfg m c ∧ Chain (c.update.apply m) log

variable {cfg}

/-! ## The conversion -/

variable {filter : Filter} {c : Change O} {e : WatchEvent O}

lemma resourceVersion_convertChange (h : convertChange cfg filter c = some e) :
    e.resourceVersion = c.resourceVersion ∧ e.isBookmark = false := by
  unfold convertChange at h
  dsimp only at h
  split at h
  · cases h
    exact ⟨rfl, rfl⟩
  split at h
  · cases h
    exact ⟨rfl, rfl⟩
  · split_ifs at h
    rcases map_eq_some_iff.1 h with ⟨prev, -, rfl⟩
    exact ⟨rfl, rfl⟩

lemma resourceVersion_convertToWatchEvent {event : WatchCacheEvent O}
    (h : convertToWatchEvent cfg filter event = some e) :
    e.resourceVersion = event.resourceVersion := by
  cases event with
  | bookmark rv =>
    cases h
    rfl
  | change c => exact (resourceVersion_convertChange h).1

/-- An event that is converted concerns an object that passes the filter, before or after. -/
lemma passes_of_convertChange (h : convertChange cfg filter c = some e) :
    filter c.key c.objLabels c.objFields = true ∨
      ∃ prev, c.previous = some prev ∧ filter c.key prev.labels prev.fields = true := by
  unfold convertChange at h
  by_cases hcur : (c.type != .deleted && filter c.key c.objLabels c.objFields) = true
  · rw [Bool.and_eq_true] at hcur
    exact Or.inl hcur.2
  rw [Bool.not_eq_true] at hcur
  rw [hcur] at h
  by_cases hold : (c.previous.any fun prev => filter c.key prev.labels prev.fields) = true
  · rw [Option.any_eq_true] at hold
    exact Or.inr hold
  · rw [Bool.not_eq_true] at hold
    rw [hold] at h
    cases h

lemma key_update (c : Change O) : c.update.key = c.key := by
  unfold Change.update
  cases c.type <;> rfl

variable {m : String → Option O}

lemma filter_value_update (filter : Filter) (h : Made cfg m c) :
    c.update.value.filter (passes cfg filter c.key) =
      if (c.type != .deleted && filter c.key c.objLabels c.objFields) = true then some c.object
      else none := by
  have hpass : passes cfg filter c.key c.object = filter c.key c.objLabels c.objFields := by
    unfold passes
    rw [h.labels_eq, h.fields_eq]
  unfold Change.update
  cases c.type with
  | deleted => rfl
  | added => rw [Update.value, filter_some, hpass, bne_iff_ne.2 (by decide), Bool.true_and]
  | modified =>
    rw [Update.value, filter_some, hpass, bne_iff_ne.2 (by decide), Bool.true_and]

/-- The conversion gives the notice of the change in the state in which it was made. -/
lemma notice_convertChange (filter : Filter) (h : Made cfg m c) :
    (convertChange cfg filter c).bind (WatchEvent.notice cfg) =
      ChangeLog.notice (passes cfg filter) m c.update := by
  unfold ChangeLog.notice
  rw [key_update, filter_value_update filter h]
  have hprev := h.previous_eq
  have hkey := h.key_eq
  unfold convertChange
  generalize (c.type != .deleted && filter c.key c.objLabels c.objFields) = cur
  cases hm : m c.key with
  | none =>
    rw [hm, map_none] at hprev
    rw [hprev]
    cases cur with
    | false => rfl
    | true => exact congrArg (fun k => some (Notice.added k c.object)) hkey.symm
  | some o =>
    rw [hm, map_some] at hprev
    have hold : passes cfg filter c.key o =
        filter c.key (cfg.element o).labels (cfg.element o).fields := rfl
    rw [hprev, any_some, filter_some, hold]
    generalize filter c.key (cfg.element o).labels (cfg.element o).fields = old
    cases cur with
    | false =>
      cases old with
      | false => rfl
      | true =>
        refine congrArg (fun k => some (Notice.deleted k)) ?_
        exact (cfg.keyFunc_updateObject _ _).trans (h.keyed o hm)
    | true =>
      cases old with
      | false => exact congrArg (fun k => some (Notice.added k c.object)) hkey.symm
      | true => exact congrArg (fun k => some (Notice.modified k c.object)) hkey.symm

/-! ## Chains -/

lemma after_append (m : String → Option O) (log1 log2 : List (Change O)) :
    after m (log1 ++ log2) = after (after m log1) log2 := by
  unfold after content
  rw [map_append, foldl_append]

lemma chain_append {log1 log2 : List (Change O)} :
    Chain cfg m (log1 ++ log2) ↔ Chain cfg m log1 ∧ Chain cfg (after m log1) log2 := by
  induction log1 generalizing m with
  | nil => simp [Chain, after, content]
  | cons c log ih =>
    show Made cfg m c ∧ Chain cfg _ (log ++ log2) ↔
      (Made cfg m c ∧ Chain cfg _ log) ∧ Chain cfg (after (c.update.apply m) log) log2
    rw [ih, and_assoc]

variable {log : List (Change O)}

/-- The watch events of a chain are the notices of its updates. -/
theorem notices_chain (filter : Filter) (h : Chain cfg m log) :
    (log.filterMap (convertChange cfg filter)).filterMap (WatchEvent.notice cfg) =
      notices (passes cfg filter) m (log.map Change.update) := by
  induction log generalizing m with
  | nil => rfl
  | cons c log ih =>
    rcases h with ⟨hmade, hrest⟩
    rw [map_cons]
    show _ = (ChangeLog.notice (passes cfg filter) m c.update).toList ++ notices _ _ _
    rw [← ih hrest, ← notice_convertChange filter hmade, filterMap_cons]
    cases convertChange cfg filter c with
    | none => rfl
    | some e =>
      rw [filterMap_cons, bind_some]
      cases e.notice cfg <;> rfl

/-- Replaying the watch events of a chain follows the filtered state. -/
lemma replay_chain (filter : Filter) (h : Chain cfg m log) :
    replay (filtered (passes cfg filter) m)
      ((log.filterMap (convertChange cfg filter)).filterMap (WatchEvent.notice cfg)) =
      filtered (passes cfg filter) (after m log) := by
  rw [notices_chain filter h, replay_notices]
  rfl

lemma legal_chain (filter : Filter) (h : Chain cfg m log) :
    Legal (filtered (passes cfg filter) m)
      ((log.filterMap (convertChange cfg filter)).filterMap (WatchEvent.notice cfg)) := by
  rw [notices_chain filter h]
  exact legal_notices _ _ _

/-- Changes of objects that were not there before leave the others as they are. -/
lemma after_of_previous_none (h : Chain cfg m log) (hnew : ∀ c ∈ log, c.previous = none)
    {key : String} {o : O} (ho : m key = some o) : after m log key = some o := by
  induction log generalizing m with
  | nil => exact ho
  | cons c log ih =>
    rcases h with ⟨hmade, hrest⟩
    refine ih hrest (forall_mem_cons.1 hnew).2 ?_
    have habsent : m c.key = none := by
      rw [← map_eq_none_iff, ← hmade.previous_eq]
      exact hnew c mem_cons_self
    have hne : key ≠ c.update.key := by
      rw [key_update]
      rintro rfl
      rw [habsent] at ho
      cases ho
    unfold Update.apply
    rw [update_of_ne hne]
    exact ho

/-! ## The store -/

variable {store : GoMap String (StoreElement O)}

section

variable (h : WellKeyed cfg store)

include h

lemma lookup_of_wellKeyed (key : String) :
    store.lookup key = (objects store key).map cfg.element := by
  unfold objects
  cases hl : store.lookup key with
  | none => rfl
  | some elem => exact congrArg some (h key elem hl).1

lemma keyFunc_of_wellKeyed {key : String} {o : O}
    (ho : objects store key = some o) : cfg.keyFunc o = key := by
  rcases map_eq_some_iff.1 ho with ⟨elem, hl, rfl⟩
  rcases h key elem hl with ⟨heq, hkey⟩
  rw [← hkey, heq]
  rfl

lemma wellKeyed_insert (o : O) :
    WellKeyed cfg (store.insert (cfg.element o).key (cfg.element o)) := by
  intro key elem hl
  rw [lookup_insert_if] at hl
  split_ifs at hl with hkey
  · cases hl
    exact ⟨rfl, hkey.symm⟩
  · exact h key elem hl

lemma wellKeyed_erase (k : String) : WellKeyed cfg (store.erase k) := by
  intro key elem hl
  rw [lookup_erase_if] at hl
  split_ifs at hl
  exact h key elem hl

lemma wellKeyed_updateStore (type : ChangeType) (o : O) :
    WellKeyed cfg (WatchCache.updateStore store type (cfg.element o)) := by
  cases type with
  | added => exact wellKeyed_insert h o
  | modified => exact wellKeyed_insert h o
  | deleted => exact wellKeyed_erase h _

end

/-- The list of a relist gives a store with the elements under their keys. -/
lemma wellKeyed_replace (w : WatchCache O) (objs : List O) (version : ℕ) :
    WellKeyed cfg (w.replace cfg objs version).store := by
  have hempty : WellKeyed cfg (∅ : GoMap String (StoreElement O)) := by
    intro key elem hl
    cases hl
  refine List.foldlRecOn objs _ hempty ?_
  intro store hstore o _
  exact wellKeyed_insert hstore o

variable (store)

lemma objects_insert (k : String) (elem : StoreElement O) :
    objects (store.insert k elem) = Function.update (objects store) k (some elem.object) := by
  funext key
  unfold objects
  rw [lookup_insert_if]
  by_cases hk : key = k
  · subst hk
    rw [if_pos rfl, update_self]
    rfl
  · rw [if_neg hk, update_of_ne hk]

lemma objects_erase (k : String) :
    objects (store.erase k) = Function.update (objects store) k none := by
  funext key
  unfold objects
  rw [lookup_erase_if]
  by_cases hk : key = k
  · subst hk
    rw [if_pos rfl, update_self]
    rfl
  · rw [if_neg hk, update_of_ne hk]

variable {store} {w : WatchCache O}

/-- `processEvent` makes its event in the current state, and does to the store what it says. -/
lemma made_eventOf (h : WellKeyed cfg w.store) (type : ChangeType) (object : O) (now : ℤ) :
    Made cfg (objects w.store) (w.eventOf cfg type object now) where
  key_eq := rfl
  labels_eq := rfl
  fields_eq := rfl
  previous_eq := lookup_of_wellKeyed h _
  keyed := fun _ => keyFunc_of_wellKeyed h

lemma objects_processEvent (w : WatchCache O) (type : ChangeType) (object : O) (now : ℤ) :
    objects (w.processEvent cfg type object now).store =
      (w.eventOf cfg type object now).update.apply (objects w.store) := by
  cases type with
  | added => exact objects_insert w.store _ _
  | modified => exact objects_insert w.store _ _
  | deleted => exact objects_erase w.store _

/-! ## The additions of a watch from version 0 -/

def additions (cfg : Config O) (w : WatchCache O) (keys : List String) : List (Change O) :=
  (keys.filterMap fun key => w.store.lookup key).map (w.addition cfg)

lemma additions_cons (w : WatchCache O) (key : String) (keys : List String) :
    additions cfg w (key :: keys) =
      ((w.store.lookup key).map (w.addition cfg)).toList ++ additions cfg w keys := by
  unfold additions
  rw [filterMap_cons]
  cases w.store.lookup key <;> rfl

lemma mem_additions {keys : List String} (h : c ∈ additions cfg w keys) :
    c.resourceVersion = w.resourceVersion ∧ c.previous = none := by
  rcases List.mem_map.1 h with ⟨elem, -, rfl⟩
  exact ⟨rfl, rfl⟩

/-- Listing the objects one by one, from a state that has none of them. -/
lemma chain_additions_of_absent (h : WellKeyed cfg w.store) {keys : List String}
    (hnodup : keys.Nodup) (habsent : ∀ key ∈ keys, m key = none) :
    Chain cfg m (additions cfg w keys) ∧ ∀ key, after m (additions cfg w keys) key =
      if key ∈ keys then objects w.store key else m key := by
  induction keys generalizing m with
  | nil => exact ⟨trivial, fun _ => rfl⟩
  | cons k keys ih =>
    rcases nodup_cons.1 hnodup with ⟨hk, hnodup⟩
    rw [additions_cons]
    cases hl : w.store.lookup k with
    | none =>
      rcases ih hnodup (m := m) (forall_mem_cons.1 habsent).2 with
        ⟨hchain, hafter⟩
      refine ⟨hchain, ?_⟩
      intro key
      show after m (additions cfg w keys) key = _
      rw [hafter]
      by_cases hkey : key = k
      · subst hkey
        have hobj : objects w.store key = none := by
          unfold objects
          rw [hl]
          rfl
        rw [if_neg hk, if_pos mem_cons_self, hobj, habsent key mem_cons_self]
      · simp only [mem_cons, hkey, false_or]
    | some elem =>
      -- `k` is added to a map without it, and the other keys stay absent
      rcases h k elem hl with ⟨helem, hkey⟩
      have hupdate : (w.addition cfg elem).update.apply m =
          Function.update m k (some elem.object) := by
        rw [← hkey]
        rfl
      have hrest := ih hnodup (m := (w.addition cfg elem).update.apply m) (by
        intro key hmem
        have hne : key ≠ k := by
          rintro rfl
          exact hk hmem
        rw [hupdate, update_of_ne hne]
        exact habsent key (mem_cons_of_mem _ hmem))
      refine ⟨⟨?_, hrest.1⟩, ?_⟩
      · have hmk : m elem.key = none := by
          rw [hkey]
          exact habsent k mem_cons_self
        constructor
        · show elem.key = cfg.keyFunc elem.object
          rw [helem]
          rfl
        · rfl
        · rfl
        · show none = (m elem.key).map cfg.element
          rw [hmk]
          rfl
        · intro o ho
          have hmk' : m elem.key = some o := ho
          rw [hmk] at hmk'
          cases hmk'
      · intro key
        show after ((w.addition cfg elem).update.apply m) (additions cfg w keys) key = _
        rw [hrest.2, hupdate]
        by_cases hkk : key = k
        · subst hkk
          have hobj : objects w.store key = some elem.object := by
            unfold objects
            rw [hl]
            rfl
          rw [if_neg hk, if_pos mem_cons_self, update_self, hobj]
        · rw [update_of_ne hkk]
          simp only [mem_cons, hkk, false_or]

/-- The additions of a watch from version 0 lead from the empty state to that of the store. -/
theorem chain_additions (h : WellKeyed cfg w.store) (order : IterOrder String) :
    Chain cfg (fun _ => none) (additions cfg w (order.order w.store.keys)) ∧
      after (fun _ => none) (additions cfg w (order.order w.store.keys)) = objects w.store := by
  have hperm := order.perm w.store.keys
  have hnodup : (order.order w.store.keys).Nodup := hperm.nodup_iff.2 w.store.keys_nodup
  rcases chain_additions_of_absent h hnodup (m := fun _ => none) (fun _ _ => rfl) with
    ⟨hchain, hafter⟩
  refine ⟨hchain, ?_⟩
  funext key
  rw [hafter]
  split_ifs with hkey
  · rfl
  have hnone : w.store.lookup key = none := by
    refine AList.lookup_eq_none.2 ?_
    intro hmem
    exact hkey (hperm.mem_iff.2 (AList.mem_keys.1 hmem))
  unfold objects
  rw [hnone]
  rfl

end Kubernetes.Apiserver
