import Kubernetes.Apiserver.Cacher

/-! # What a step of the cacher can do

`Step s l s'` lists the steps of the cacher with what is known when they are taken;
`step_cases` says that there are no others.

Below are the facts about the index of the registered watchers: what is in it after a watcher is
added, deleted or all are removed, and whom an event is dispatched to.
-/

namespace Kubernetes.Apiserver

open List Option NestedMap

namespace Cacher

variable {O : Type} (cfg : Config O)

inductive Step (s : Cacher O) : Label O → Cacher O → Prop where
  | process (type : ChangeType) (object : O) (now : ℤ) (hconn : s.connection = .connected)
      (hpend : s.pending = none)
      (hrv : s.watchCache.resourceVersion < cfg.objectResourceVersion object) :
      Step s (.process type object now) (s.process cfg type object now)
  | updateResourceVersion (rv : ℕ) (hconn : s.connection = .connected) (hpend : s.pending = none)
      (hrv : s.watchCache.resourceVersion ≤ rv) :
      Step s (.updateResourceVersion rv) (s.updateResourceVersion rv)
  | push (event : WatchCacheEvent O) (hpend : s.pending = some event) :
      Step s .push (s.push event)
  | disconnect (hconn : s.connection = .connected) (hpend : s.pending = none) :
      Step s .disconnect s.disconnect
  | startCaching (hconn : s.connection = .down) : Step s .startCaching s.startCaching
  | listFailed (hconn : s.connection = .listing) : Step s .listFailed s.listFailed
  | replace (objs : List O) (version : ℕ) (hconn : s.connection = .listing) (hpos : 0 < version)
      (hrv : s.watchCache.resourceVersion ≤ version) :
      Step s (.replace objs version) (s.replace cfg objs version)
  | watch (req : WatchRequest) (hready : s.ready = true) :
      Step s (.watch req) { s with waiting := s.waiting ++ [req] }
  | refuse (n : ℕ) (req : WatchRequest) (order : IterOrder String) (now : ℤ)
      (hreq : s.waiting[n]? = some req) : Step s (.register n order now) (s.leave n)
  | register (n : ℕ) (req : WatchRequest) (order : IterOrder String) (now : ℤ)
      (initEvents : List (Change O)) (hreq : s.waiting[n]? = some req)
      (hevents : s.watchCache.getAllEventsSince cfg req.resourceVersion order = .ok initEvents) :
      Step s (.register n order now) ((s.leave n).addWatcher (s.newWatcher cfg req initEvents)
        req.pred.allowWatchBookmarks now)
  | popBookmark (rv : ℕ) (rest : List (WatchCacheEvent O)) (hcur : s.current = none)
      (hinc : s.incoming = .bookmark rv :: rest) :
      Step s .pop { s with incoming := rest, lastProcessedResourceVersion := rv }
  | popChange (c : Change O) (rest : List (WatchCacheEvent O)) (hcur : s.current = none)
      (hinc : s.incoming = .change c :: rest) :
      Step s .pop { s with incoming := rest, current := some (.change c) }
  | timerIdle (now : ℤ) (hcur : s.current = none) :
      Step s (.bookmarkTimer now)
        { s with bookmarkWatchers := (s.bookmarkWatchers.popExpiredWatchers now).2 }
  | timerDue (now : ℤ) (hcur : s.current = none) (hlast : 0 < s.lastProcessedResourceVersion) :
      Step s (.bookmarkTimer now)
        { s with current := some (.bookmark s.lastProcessedResourceVersion) }
  | startDispatching (event : WatchCacheEvent O) (order : IterOrder ℕ) (values : IterOrder String)
      (now : ℤ) (requeued : ℕ → ℤ) (hcur : s.current = some event)
      (hd : s.dispatching = false) :
      Step s (.startDispatching order values now requeued)
        (s.startDispatching cfg event order values now requeued)
  | addSent (event : WatchCacheEvent O) (i : ℕ) (rest : List ℕ) (hcur : s.current = some event)
      (hd : s.dispatching = true) (hbuffer : s.watchersBuffer = i :: rest) :
      Step s .nonblockingAdd { s.sendInput i event with watchersBuffer := rest }
  | addDropped (rv : ℕ) (i : ℕ) (rest : List ℕ) (hcur : s.current = some (.bookmark rv))
      (hd : s.dispatching = true) (hbuffer : s.watchersBuffer = i :: rest) :
      Step s .nonblockingAdd { s with watchersBuffer := rest }
  | addBlocked (c : Change O) (i : ℕ) (rest : List ℕ) (hcur : s.current = some (.change c))
      (hd : s.dispatching = true) (hbuffer : s.watchersBuffer = i :: rest) :
      Step s .nonblockingAdd
        { s with watchersBuffer := rest, blockedWatchers := s.blockedWatchers ++ [i] }
  | retrySent (event : WatchCacheEvent O) (i : ℕ) (rest : List ℕ)
      (hcur : s.current = some event) (hd : s.dispatching = true)
      (hbuffer : s.watchersBuffer = []) (hblock : s.blockedWatchers = i :: rest) :
      Step s (.add false) { s.sendInput i event with blockedWatchers := rest }
  | retryClosed (event : WatchCacheEvent O) (i : ℕ) (rest : List ℕ)
      (hcur : s.current = some event) (hd : s.dispatching = true)
      (hbuffer : s.watchersBuffer = []) (hblock : s.blockedWatchers = i :: rest) :
      Step s (.add true) { s.forget i with blockedWatchers := rest, timerFired := true }
  | finishDispatching (event : WatchCacheEvent O) (hcur : s.current = some event)
      (hd : s.dispatching = true) (hbuffer : s.watchersBuffer = [])
      (hblock : s.blockedWatchers = []) :
      Step s .finishDispatching (s.finishDispatching event)
  | take (i : ℕ) (w : CacheWatcher O) (hi : i < s.watcherIdx) (hsend : (s.heap i).sending = none)
      (htake : Cacher.take cfg (s.heap i) = some w) : Step s (.take i) (s.setWatcher i w)
  | send (i : ℕ) (event : WatchEvent O) (hi : i < s.watcherIdx)
      (hsend : (s.heap i).sending = some event) :
      Step s (.send i) (s.setWatcher i
        { s.heap i with result := (s.heap i).result ++ [event], sending := none })
  | drop (i : ℕ) (event : WatchEvent O) (hi : i < s.watcherIdx)
      (hsend : (s.heap i).sending = some event) (hstop : (s.heap i).stopped = true) :
      Step s (.drop i) (s.setWatcher i { s.heap i with sending := none })
  | cancel (i : ℕ) (hi : i < s.watcherIdx) :
      Step s (.cancel i) (s.setWatcher i { s.heap i with finished := true })
  | stop (i : ℕ) (hi : i < s.watcherIdx) : Step s (.stop i) (s.forget i)

variable {cfg}

lemma of_ite_some {σ : Type} {p : Prop} [Decidable p] {s s' : σ}
    (h : (if p then some s else none) = some s') : p ∧ s = s' := by
  split_ifs at h with hp
  exact ⟨hp, Option.some.inj h⟩

theorem step_cases {s s' : Cacher O} {l : Label O} (h : step cfg s l = some s') :
    Step cfg s l s' := by
  cases l with
  | process type object now =>
    rcases of_ite_some h with ⟨⟨hconn, hpend, hrv⟩, rfl⟩
    exact .process type object now hconn (isNone_iff_eq_none.1 hpend) hrv
  | updateResourceVersion rv =>
    rcases of_ite_some h with ⟨⟨hconn, hpend, hrv⟩, rfl⟩
    exact .updateResourceVersion rv hconn (isNone_iff_eq_none.1 hpend) hrv
  | push =>
    rcases bind_eq_some_iff.1 h with ⟨event, hpend, h⟩
    rcases of_ite_some h with ⟨-, rfl⟩
    exact .push event hpend
  | disconnect =>
    rcases of_ite_some h with ⟨⟨hconn, hpend⟩, rfl⟩
    exact .disconnect hconn (isNone_iff_eq_none.1 hpend)
  | startCaching =>
    rcases of_ite_some h with ⟨hconn, rfl⟩
    exact .startCaching hconn
  | listFailed =>
    rcases of_ite_some h with ⟨hconn, rfl⟩
    exact .listFailed hconn
  | replace objs version =>
    rcases of_ite_some h with ⟨⟨hconn, hpos, hrv⟩, rfl⟩
    exact .replace objs version hconn hpos hrv
  | watch req =>
    rcases of_ite_some h with ⟨hready, rfl⟩
    exact .watch req hready
  | register n order now =>
    rcases bind_eq_some_iff.1 h with ⟨req, hreq, h⟩
    have hs : s.register cfg n req order now = s' := Option.some.inj h
    unfold register at hs
    split at hs
    · subst hs
      exact .refuse n req order now hreq
    · rename_i initEvents hevents
      subst hs
      exact .register n req order now initEvents hreq hevents
  | pop =>
    simp only [step] at h
    split at h
    · rename_i event rest hcur hinc
      cases event with
      | bookmark rv =>
        cases h
        exact .popBookmark rv rest hcur hinc
      | change c =>
        cases h
        exact .popChange c rest hcur hinc
    · cases h
  | bookmarkTimer now =>
    rcases of_ite_some h with ⟨hcur, rfl⟩
    have hnone := isNone_iff_eq_none.1 hcur
    unfold bookmarkTimer
    split
    · exact .timerIdle now hnone
    · exact .timerDue now hnone (Nat.pos_of_ne_zero ‹_›)
  | startDispatching order values now requeued =>
    rcases bind_eq_some_iff.1 h with ⟨event, hcur, h⟩
    split_ifs at h with hd
    cases h
    exact .startDispatching event order values now requeued hcur
      (Bool.not_eq_true _ ▸ hd)
  | nonblockingAdd =>
    rcases bind_eq_some_iff.1 h with ⟨event, hcur, h⟩
    split at h
    · rename_i i rest hbuffer
      rcases of_ite_some h with ⟨hd, rfl⟩
      unfold nonblockingAdd
      split
      · exact .addSent event i rest hcur hd hbuffer
      · cases event with
        | bookmark rv => exact .addDropped rv i rest hcur hd hbuffer
        | change c => exact .addBlocked c i rest hcur hd hbuffer
    · cases h
  | add fires =>
    rcases bind_eq_some_iff.1 h with ⟨event, hcur, h⟩
    split at h
    · rename_i i rest hbuffer hblock
      rcases of_ite_some h with ⟨⟨hd, -⟩, rfl⟩
      cases fires with
      | false => exact .retrySent event i rest hcur hd hbuffer hblock
      | true => exact .retryClosed event i rest hcur hd hbuffer hblock
    · cases h
  | finishDispatching =>
    rcases bind_eq_some_iff.1 h with ⟨event, hcur, h⟩
    rcases of_ite_some h with ⟨⟨hd, hbuffer, hblock⟩, rfl⟩
    exact .finishDispatching event hcur hd hbuffer hblock
  | take i =>
    simp only [step] at h
    split_ifs at h with hcond
    rcases map_eq_some_iff.1 h with ⟨w, htake, rfl⟩
    exact .take i w hcond.1 (isNone_iff_eq_none.1 hcond.2.1) htake
  | send i =>
    rcases bind_eq_some_iff.1 h with ⟨event, hsend, h⟩
    rcases of_ite_some h with ⟨hi, rfl⟩
    exact .send i event hi hsend
  | drop i =>
    rcases of_ite_some h with ⟨⟨hi, hsome, hstop⟩, rfl⟩
    rcases isSome_iff_exists.1 hsome with ⟨event, hsend⟩
    exact .drop i event hi hsend hstop
  | cancel i =>
    rcases of_ite_some h with ⟨⟨hi, -⟩, rfl⟩
    exact .cancel i hi
  | stop i =>
    rcases of_ite_some h with ⟨hi, rfl⟩
    exact .stop i hi

end Cacher

/-! ## The index of the watchers -/

namespace IndexedWatchers

variable {iw : IndexedWatchers}

/-- Adding and deleting a watcher change what the index has for it under its trigger value. -/
lemma has_update (iw : IndexedWatchers) (n i : ℕ) (v t : Option String) :
    ((iw.addWatcher n v).has i t = if i = n ∧ t = v then true else iw.has i t) ∧
      (iw.deleteWatcher n v).has i t = if i = n ∧ t = v then false else iw.has i t := by
  rcases v with _ | v <;> rcases t with _ | t
  · show ((iw.allWatchers.insert n ()).lookup i).isSome = _ ∧
      ((iw.allWatchers.erase n).lookup i).isSome = _
    rw [GoMap.lookup_insert_if, GoMap.lookup_erase_if, apply_ite Option.isSome,
      apply_ite Option.isSome]
    simp only [and_true]
    exact ⟨rfl, rfl⟩
  · simp only [reduceCtorEq, and_false, if_false]
    exact ⟨rfl, rfl⟩
  · simp only [reduceCtorEq, and_false, if_false]
    exact ⟨rfl, rfl⟩
  · show (get (put iw.valueWatchers v n ()) t i).isSome = _ ∧
      (get (delete iw.valueWatchers v n) t i).isSome = _
    rw [get_put, get_delete, apply_ite Option.isSome, apply_ite Option.isSome]
    simp only [some.injEq, and_comm (a := t = v)]
    exact ⟨rfl, rfl⟩

lemma has_empty (i : ℕ) (t : Option String) :
    (⟨∅, ∅⟩ : IndexedWatchers).has i t = false := by
  cases t <;> rfl

lemma mem_keys_value {value : String} {i : ℕ} :
    i ∈ ((iw.valueWatchers.lookup value).getD ∅).keys ↔ iw.has i (some value) = true := by
  show _ ↔ (get iw.valueWatchers value i).isSome = true
  rw [get_eq, AList.lookup_isSome, AList.mem_keys]

lemma mem_keys_all {i : ℕ} : i ∈ iw.allWatchers.keys ↔ iw.has i none = true := by
  show _ ↔ (iw.allWatchers.lookup i).isSome = true
  rw [AList.lookup_isSome, AList.mem_keys]

lemma mem_numbers {i : ℕ} : i ∈ iw.numbers ↔ ∃ t, iw.has i t = true := by
  unfold numbers
  rw [mem_append, mem_keys_all, mem_flatMap]
  constructor
  · rintro (h | ⟨⟨value, inner⟩, hentry, hi⟩)
    · exact ⟨none, h⟩
    refine ⟨some value, mem_keys_value.1 ?_⟩
    have hlookup : iw.valueWatchers.lookup value = some inner := AList.mem_lookup_iff.2 hentry
    rw [hlookup]
    exact hi
  rintro ⟨t, h⟩
  cases t with
  | none => exact Or.inl h
  | some value =>
    right
    rw [← mem_keys_value] at h
    cases hlookup : iw.valueWatchers.lookup value with
    | none =>
      rw [hlookup] at h
      cases h
    | some inner =>
      rw [hlookup] at h
      exact ⟨⟨value, inner⟩, AList.mem_lookup_iff.1 hlookup, h⟩

/-- Every registered watcher is registered under its own trigger value `trigger i`. -/
def Under (iw : IndexedWatchers) (trigger : ℕ → Option String) : Prop :=
  ∀ i t, iw.has i t = true → trigger i = t

variable {triggerValues : Option (List String)}

lemma mem_interested {order : IterOrder ℕ} {values : IterOrder String}
    {i : ℕ} :
    i ∈ iw.interested order values triggerValues ↔ iw.has i none = true ∨
      ∃ value, iw.has i (some value) = true ∧ ∀ vs, triggerValues = some vs → value ∈ vs := by
  unfold interested
  rw [mem_append, (order.perm _).mem_iff, mem_keys_all, mem_flatMap]
  have hkeys : ∀ value, i ∈ order.order ((iw.valueWatchers.lookup value).getD ∅).keys ↔
      iw.has i (some value) = true := fun value => by
    rw [(order.perm _).mem_iff, mem_keys_value]
  simp only [hkeys]
  refine or_congr Iff.rfl ?_
  cases triggerValues with
  | some vs =>
    constructor
    · rintro ⟨value, hmem, hhas⟩
      refine ⟨value, hhas, ?_⟩
      intro vs' heq
      cases heq
      exact hmem
    · rintro ⟨value, hhas, hmem⟩
      exact ⟨value, hmem vs rfl, hhas⟩
  | none =>
    constructor
    · rintro ⟨value, -, hhas⟩
      exact ⟨value, hhas, fun vs h => by cases h⟩
    rintro ⟨value, hhas, -⟩
    refine ⟨value, (values.perm _).mem_iff.2 ?_, hhas⟩
    -- a value with a watcher is a key of the index
    rw [← mem_keys_value] at hhas
    cases hlookup : iw.valueWatchers.lookup value with
    | none =>
      rw [hlookup] at hhas
      cases hhas
    | some inner => exact AList.mem_keys.1 (GoMap.mem_iff_lookup.2 ⟨inner, hlookup⟩)

lemma nodup_interested {trigger : ℕ → Option String} (h : iw.Under trigger)
    (order : IterOrder ℕ) (values : IterOrder String)
    (hvalues : ∀ vs, triggerValues = some vs → vs.Nodup) :
    (iw.interested order values triggerValues).Nodup := by
  have hkeys : ∀ (m : GoMap ℕ Unit), (order.order m.keys).Nodup := fun m =>
    (order.perm _).nodup_iff.2 m.keys_nodup
  have htrig : ∀ {value : String} {i : ℕ},
      i ∈ order.order ((iw.valueWatchers.lookup value).getD ∅).keys → trigger i = some value := by
    intro value i hi
    exact h i (some value) (mem_keys_value.1 ((order.perm _).mem_iff.1 hi))
  have hvs : (triggerValues.getD (values.order iw.valueWatchers.keys)).Nodup := by
    cases triggerValues with
    | some vs => exact hvalues vs rfl
    | none => exact (values.perm _).nodup_iff.2 iw.valueWatchers.keys_nodup
  unfold interested
  refine nodup_append'.2 ⟨hkeys _, ?_, ?_⟩
  · refine nodup_flatMap.2 ⟨fun value _ => hkeys _, ?_⟩
    refine hvs.imp ?_
    intro v v' hne i hi hi'
    have heq := (htrig hi).symm.trans (htrig hi')
    exact hne (Option.some.inj heq)
  · intro i hall hvalue
    rcases mem_flatMap.1 hvalue with ⟨value, -, hi⟩
    have hnone := h i none (mem_keys_all.1 ((order.perm _).mem_iff.1 hall))
    rw [htrig hi] at hnone
    cases hnone

end IndexedWatchers

/-! ## Routing by trigger values -/

/-- Objects that pass the filter have the trigger value in the indexed field. -/
def Routed {O : Type} (cfg : Config O) (w : CacheWatcher O) : Prop :=
  ∀ value, w.triggerValue = some value → ∃ t, cfg.indexedTrigger = some t ∧
    ∀ key l f, w.filter key l f = true → Fields.get f t.indexName = value

variable {O : Type} {cfg : Config O}

/-- The trigger value of a request is what its field selector requires. -/
lemma triggerValue_sound {pred : SelectionPredicate} {value : String}
    (h : triggerValue cfg pred = some value) :
    ∃ t, cfg.indexedTrigger = some t ∧
      pred.field.requiresExactMatch t.indexName = some value := by
  unfold triggerValue at h
  cases ht : cfg.indexedTrigger with
  | none =>
    rw [ht] at h
    cases h
  | some t =>
    rw [ht] at h
    refine ⟨t, rfl, ?_⟩
    -- the loop keeps: the value found so far, if any, is required
    refine List.foldlRecOn pred.indexFields _
      (motive := fun value => ∀ found, value = some found →
        pred.field.requiresExactMatch t.indexName = some found) ?_ ?_ value h
    · intro found hfound
      cases hfound
    intro sofar ih field _ found hfound
    split_ifs at hfound with hfield
    · subst hfield
      split at hfound
      · rename_i v hv
        rw [hv, hfound]
      · exact ih found hfound
    · exact ih found hfound

lemma routed_newWatcher (s : Cacher O) (req : WatchRequest) (initEvents : List (Change O)) :
    Routed cfg (s.newWatcher cfg req initEvents) := by
  intro value hvalue
  rcases triggerValue_sound hvalue with ⟨t, ht, hrequires⟩
  refine ⟨t, ht, ?_⟩
  intro key l f hpass
  exact FieldSelector.requiresExactMatch_sound _ hrequires (field_matches_of_filter hpass)

lemma nodup_triggerValues {c : Change O} {vs : List String}
    (h : triggerValues cfg c = some vs) : vs.Nodup := by
  rcases map_eq_some_iff.1 h with ⟨t, -, rfl⟩
  dsimp only
  split
  · exact nodup_singleton _
  · split_ifs with hne
    · exact nodup_cons.2 ⟨fun hmem => hne (mem_singleton.1 hmem), nodup_singleton _⟩
    · exact nodup_singleton _

/-- An event that a watcher is interested in has its trigger value. -/
lemma mem_triggerValues {w : CacheWatcher O} (hw : Routed cfg w) {value : String}
    (hvalue : w.triggerValue = some value) {m : String → Option O} {c : Change O}
    (hmade : Made cfg m c) {e : WatchEvent O} (he : convertChange cfg w.filter c = some e)
    {vs : List String} (hvs : triggerValues cfg c = some vs) : value ∈ vs := by
  rcases hw value hvalue with ⟨t, ht, hfilter⟩
  unfold triggerValues at hvs
  rw [ht, map_some, Option.some.injEq] at hvs
  subst hvs
  dsimp only
  rcases passes_of_convertChange he with hpass | ⟨prev, hprev, hpass⟩
  · -- the object passes the filter
    have heq : t.indexerFunc c.object = value := by
      rw [cfg.indexer_eq t ht, ← hmade.fields_eq]
      exact hfilter _ _ _ hpass
    rw [heq]
    split
    · exact mem_cons_self
    · split <;> exact mem_cons_self
  -- the previous object passes the filter
  have heq : t.indexerFunc prev.object = value := by
    have hprev' := hmade.previous_eq
    rw [hprev] at hprev'
    rcases map_eq_some_iff.1 hprev'.symm with ⟨o, -, hprev⟩
    rw [cfg.indexer_eq t ht, ← hprev]
    rw [← hprev] at hpass
    exact hfilter _ _ _ hpass
  rw [hprev]
  dsimp only
  split_ifs with hsame
  · rw [heq]
    exact mem_cons_of_mem _ mem_cons_self
  · rw [not_not] at hsame
    rw [hsame, heq]
    exact mem_cons_self

end Kubernetes.Apiserver
