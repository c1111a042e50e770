import Kubernetes.Apiserver.CacherWatches

/-! # Watches from version 0

A watch from version 0 starts with additions for the current state of the cache. Its watcher
takes an event from its channel for new if the event is newer than the last of the additions. If
there is none, on an empty store, everything passes for new: events that were applied to the
store before and are still in the queue, and bookmarks of the past
(`zero_watch_on_empty_store`). A watch that was past `ready.wait()` when the connection broke may
also be registered between two lists, and is then not terminated.

`StartsCaughtUp` excludes both. In runs that meet it, replaying what a watch from version 0 has
sent is consistent with the state it started from (`watch_from_zero_consistent`), over any number
of relists.
-/

namespace Kubernetes.Apiserver

open ChangeLog Watermark List

variable {O : Type} {cfg : Config O}

namespace Cacher

variable (s : Cacher O)

/-- Neither an event that is on its way nor the last one that was dispatched is older. -/
def Ahead (rv : ℕ) : Prop :=
  (∀ e ∈ s.pipeline, rv ≤ e.resourceVersion) ∧
    (s.lastProcessedResourceVersion = 0 ∨ rv ≤ s.lastProcessedResourceVersion)

instance (s : Cacher O) (rv : ℕ) : Decidable (s.Ahead rv) :=
  inferInstanceAs (Decidable (_ ∧ _))

/-- The dispatcher has started with all changes that were applied, and no bookmark of the past can
come of what it is busy with. -/
def CaughtUp : Prop :=
  (∀ e ∈ s.undispatched, e.change?.isNone = true) ∧ s.Ahead s.watchCache.resourceVersion

instance (s : Cacher O) : Decidable s.CaughtUp := inferInstanceAs (Decidable (_ ∧ _))

/-- Watchers are registered while the cache is ready and, from version 0 on an empty store, when
the dispatcher has caught up. -/
def StartsCaughtUp : Label O → Prop
  | .register n _ _ => s.ready = true ∧
      match s.waiting[n]? with
      | some req => req.resourceVersion = 0 → s.watchCache.store.keys = [] → s.CaughtUp
      | none => True
  | _ => True

instance : ∀ (s : Cacher O) (l : Label O), Decidable (StartsCaughtUp s l)
  | s, .register n _ _ =>
    @instDecidableAnd _ _ inferInstance <|
      match s.waiting[n]? with
      | some _ => inferInstanceAs (Decidable (_ → _ → _))
      | none => isTrue trivial
  | _, .process .. | _, .updateResourceVersion _ | _, .push | _, .disconnect | _, .startCaching
  | _, .listFailed | _, .replace .. | _, .watch _ | _, .pop | _, .bookmarkTimer _
  | _, .startDispatching .. | _, .nonblockingAdd | _, .add _ | _, .finishDispatching | _, .take _
  | _, .send _ | _, .drop _ | _, .cancel _ | _, .stop _ => isTrue trivial

variable {s s' : Cacher O} {i rv : ℕ}

/-! ## Starting from the state of the cache -/

lemma Ahead.step (h : s.Ahead rv) (hrv : rv ≤ s.watchCache.resourceVersion) {l : Label O}
    (hstep : Step cfg s l s') : s'.Ahead rv := by
  rcases h with ⟨hpipe, hlast⟩
  cases Pipeline.moves hstep with
  | same hpipeline hsame =>
    unfold Ahead
    rw [hpipeline, hsame]
    exact ⟨hpipe, hlast⟩
  | enter event hevent hpipeline hsame =>
    unfold Ahead
    rw [hpipeline, hsame]
    exact ⟨forall_mem_append.2 ⟨hpipe, forall_mem_singleton.2 (hrv.trans hevent.le)⟩, hlast⟩
  | exit event hpipeline hnoted =>
    rw [hpipeline] at hpipe
    constructor
    · intro e he
      exact hpipe e (mem_cons_of_mem _ he)
    · rw [hnoted]
      exact Or.inr (hpipe event mem_cons_self)

/-- A watcher from version 0 that takes nothing old for new. -/
structure Fresh (cfg : Config O) (s : Cacher O) (i : ℕ) : Prop where
  stale : (s.heap i).start.stale = []
  stream : Stream cfg (s.heap i).start.version s i
  ahead : (s.heap i).resourceVersion = (s.heap i).start.version ∨
    s.Ahead (s.heap i).start.version

lemma Fresh.step (h : Fresh cfg s i) (hi : i < s.watcherIdx) (hinv : Streaming cfg s)
    (hrv : (s.heap i).start.version ≤ s.watchCache.resourceVersion) {l : Label O}
    (hstep : Step cfg s l s') : Fresh cfg s' i := by
  have hbegin := sameBegin_step hi hstep
  constructor
  · rw [hbegin.start]
    exact h.stale
  · rw [hbegin.start]
    refine h.stream.step hi hinv.wired hinv.gate ?_ hstep
    intro b hcur _ hnewer
    rcases h.ahead with heq | ⟨-, hlast⟩
    · omega
    · have hb := hinv.wired.pipeline.bookmark b hcur
      omega
  · rw [hbegin.start, hbegin.resourceVersion]
    rcases h.ahead with heq | hahead
    · exact Or.inl heq
    · exact Or.inr (hahead.step hrv hstep)

lemma keys_eq_nil_of_additions {w : WatchCache O} (hkeyed : WellKeyed cfg w.store)
    {order : IterOrder String} (h : additions cfg w (order.order w.store.keys) = []) :
    w.store.keys = [] := by
  have hafter := (chain_additions hkeyed order).2
  rw [h] at hafter
  refine eq_nil_iff_forall_not_mem.2 ?_
  intro key hkey
  rcases Option.isSome_iff_exists.1 (AList.lookup_isSome.2 (AList.mem_keys.2 hkey)) with
    ⟨elem, helem⟩
  have hobj : objects w.store key = some elem.object := by
    unfold objects
    rw [helem]
    rfl
  rw [← hafter] at hobj
  cases hobj

lemma fresh_register (hw : Wired cfg s) (n : ℕ) {req : WatchRequest} {order : IterOrder String}
    {initEvents : List (Change O)} (hzero : req.resourceVersion = 0)
    (hevents : s.watchCache.getAllEventsSince cfg req.resourceVersion order = .ok initEvents)
    (hempty : s.watchCache.store.keys = [] → s.CaughtUp) (allow : Bool) (now : ℤ) :
    Fresh cfg ((s.leave n).addWatcher (s.newWatcher cfg req initEvents) allow now)
      s.watcherIdx := by
  set w := s.newWatcher cfg req initEvents with hwatcher
  set s' := (s.leave n).addWatcher w allow now with hs'
  have hheap : s'.heap s.watcherIdx = w := Function.update_self _ _ _
  have hver : w.start.version = s.watchCache.resourceVersion := if_pos hzero
  have hstale : w.start.stale = s.coming.filter fun c =>
      decide (w.resourceVersion < c.resourceVersion) := if_pos hzero
  -- the last addition has the version of the cache, or there is none
  have hlevel : w.resourceVersion = s.watchCache.resourceVersion ∨ s.CaughtUp := by
    have hthreshold := (begun_register hw n hevents allow now).threshold
    rw [← hwatcher, ← hs', hheap, hver] at hthreshold
    rcases hthreshold with hnil | heq
    · right
      have hnone : initEvents = [] := (if_pos hzero).symm.trans hnil
      rw [hzero] at hevents
      rw [WatchCache.getAllEventsSince_zero cfg hevents] at hnone
      exact hempty (keys_eq_nil_of_additions hw.history.keyed hnone)
    · exact Or.inl heq
  constructor
  · rw [hheap, hstale]
    refine filter_eq_nil_iff.2 ?_
    intro c hc hnewer
    have hnewer' := of_decide_eq_true hnewer
    rcases hlevel with heq | hcaught
    · have hle : c.resourceVersion ≤ _ := hw.pipeline.below _ (mem_coming hc)
      omega
    rcases mem_filterMap.1 hc with ⟨e, he, hchange⟩
    have hnone := hcaught.1 e he
    rw [hchange] at hnone
    cases hnone
  · exact Stream.register hw n hevents allow now
  · rw [hheap, hver]
    rcases hlevel with heq | hcaught
    · exact Or.inl heq
    · exact Or.inr hcaught.2

/-- What is known of the watchers in runs that meet the condition. -/
structure Snapshots (cfg : Config O) (s : Cacher O) : Prop where
  streaming : Streaming cfg s
  begun : ∀ i < s.watcherIdx, Begun cfg s i
  fresh : ∀ i < s.watcherIdx, (s.heap i).start.asked = 0 → Fresh cfg s i

lemma Snapshots.step (h : Snapshots cfg s) {l : Label O} (hok : StartsCaughtUp s l)
    (hready : RegistersReady s l) (hstep : Step cfg s l s') : Snapshots cfg s' := by
  refine ⟨h.streaming.step hready hstep, begun_step h.streaming h.begun hstep, ?_⟩
  intro i hi hzero
  rcases watcher_step hstep hi with hold |
    ⟨rfl, n, req, order, now, initEvents, hreq, hevents, rfl, rfl⟩
  · rw [(sameBegin_step hold hstep).start] at hzero
    exact (h.fresh i hold hzero).step hold h.streaming ((h.begun i hold).version_le hzero) hstep
  have hasked : req.resourceVersion = 0 := by
    have hzero' : (Function.update s.heap s.watcherIdx (s.newWatcher cfg req initEvents)
      s.watcherIdx).start.asked = 0 := hzero
    rw [Function.update_self] at hzero'
    exact hzero'
  have hcaught := hok.2
  rw [hreq] at hcaught
  exact fresh_register h.streaming.wired n hasked hevents (hcaught hasked) _ _

lemma snapshots_of_reach {tr : List (Label O)}
    (h : (cacher cfg).ReachWhen StartsCaughtUp tr s) : Snapshots cfg s := by
  refine h.invariant (Snapshots cfg) ?_ ?_
  · refine ⟨Streaming.init, ?_, ?_⟩
    · intro i hi
      exact absurd hi (Nat.not_lt_zero i)
    · intro i hi
      exact absurd hi (Nat.not_lt_zero i)
  · intro s l s' hinv hok hstep
    have hready : RegistersReady s l := by
      cases l with
      | register n order now => exact hok.1
      | _ => trivial
    exact hinv.step hok hready (step_cases hstep)

/-! ## What a watch from version 0 has sent -/

lemma lastVersion_append (rv : ℕ) (as bs : List (WatchEvent O)) :
    lastVersion rv (as ++ bs) = lastVersion (lastVersion rv as) bs := by
  rcases eq_nil_or_concat bs with rfl | ⟨front, last, rfl⟩
  · rw [append_nil]
    rfl
  · unfold lastVersion
    rw [concat_eq_append, ← append_assoc, getLast?_concat, getLast?_concat]

lemma lastVersion_of_forall {events : List (WatchEvent O)}
    (h : ∀ e ∈ events, e.resourceVersion = rv) : lastVersion rv events = rv := by
  unfold lastVersion
  split
  · rename_i e hlast
    exact h e (mem_of_getLast? hlast)
  · rfl

/-- The additions and the changes after them are one chain. -/
lemma Begun.chain (h : Begun cfg s i) (hzero : (s.heap i).start.asked = 0)
    (hrecorded : Recorded cfg (s.epochs (s.heap i).start.epoch)) :
    Chain cfg (fun _ => none) ((s.heap i).start.initial ++
      (s.epochs (s.heap i).start.epoch).log.filter fun c =>
        decide ((s.heap i).start.version < c.resourceVersion)) := by
  rcases h.fresh hzero with ⟨hinit, hafter⟩
  refine chain_append.2 ⟨hinit, ?_⟩
  have hchain := hrecorded.chain
  rw [filter_le_append_filter_lt (s.heap i).start.version hrecorded.ascending] at hchain
  rw [hafter]
  exact (chain_append.1 hchain).2

/-- The additions that were sent so far are part of the state they were taken from. -/
lemma Begun.replay_initial (h : Begun cfg s i) (hzero : (s.heap i).start.asked = 0)
    {events : List (WatchEvent O)}
    (hevents : events <+: (s.heap i).start.initial.filterMap
      (convertChange cfg (s.heap i).filter)) {key : String} {o : O}
    (ho : replay (fun _ => none) (events.filterMap (WatchEvent.notice cfg)) key = some o) :
    filtered (passes cfg (s.heap i).filter)
      (s.contentAt (s.heap i).start.epoch (s.heap i).start.version) key = some o := by
  rcases h.fresh hzero with ⟨hchain, hafter⟩
  rcases exists_of_isPrefix_filterMap hevents with ⟨part, rest, hsplit, rfl, -⟩
  have hnew := fun c hc => (h.initial c hc).2
  rw [hsplit] at hchain hafter hnew
  rcases chain_append.1 hchain with ⟨hpart, hrest⟩
  have hreplay := replay_chain (s.heap i).filter hpart
  have ho' : filtered (passes cfg (s.heap i).filter) (after (fun _ => none) part) key = some o := by
    rw [← hreplay]
    exact ho
  rcases Option.filter_eq_some_iff.1 ho' with ⟨hobj, hpass⟩
  have hkeep := after_of_previous_none hrest
    (fun c hc => hnew c (mem_append_right _ hc)) hobj
  rw [← after_append, hafter] at hkeep
  exact Option.filter_eq_some_iff.2 ⟨hkeep, hpass⟩

/-- A watch from version 0 is consistent with the state it starts from. What it has sent can be
replayed on the empty set, and nothing is older than that state. Once all additions are sent,
replaying gives the filtered content at the version of the last event; until then only additions
are sent, and replaying gives part of the first state. -/
theorem watch_from_zero_consistent {tr : List (Label O)}
    (h : (cacher cfg).ReachWhen StartsCaughtUp tr s) (hi : i < s.watcherIdx)
    (hzero : (s.heap i).start.asked = 0) :
    Legal (fun _ => none) ((s.heap i).delivered.filterMap (WatchEvent.notice cfg)) ∧
      (∀ x ∈ (s.heap i).result, (s.heap i).start.version ≤ x.resourceVersion) ∧
      ((s.heap i).start.initial.filterMap (convertChange cfg (s.heap i).filter) <+:
          (s.heap i).delivered →
        (s.heap i).start.version ≤
          lastVersion (s.heap i).start.version (s.heap i).delivered ∧
        replay (fun _ => none) ((s.heap i).delivered.filterMap (WatchEvent.notice cfg)) =
          filtered (passes cfg (s.heap i).filter) (s.contentAt (s.heap i).start.epoch
            (lastVersion (s.heap i).start.version (s.heap i).delivered))) ∧
      (¬ (s.heap i).start.initial.filterMap (convertChange cfg (s.heap i).filter) <+:
          (s.heap i).delivered →
        (s.heap i).delivered <+:
          (s.heap i).start.initial.filterMap (convertChange cfg (s.heap i).filter) ∧
        ∀ key o, replay (fun _ => none)
            ((s.heap i).delivered.filterMap (WatchEvent.notice cfg)) key = some o →
          filtered (passes cfg (s.heap i).filter)
            (s.contentAt (s.heap i).start.epoch (s.heap i).start.version) key = some o) := by
  have hinv := snapshots_of_reach h
  have hbegin := hinv.begun i hi
  have hfresh := hinv.fresh i hi hzero
  have hrecorded := hinv.streaming.wired.history.recorded (s.heap i).start.epoch
  set w := s.heap i
  rcases hfresh.stream.serves_result with ⟨rest, hserves⟩
  have hfirst : w.delivered <+: _ := hserves.data_isPrefix
  unfold CacheWatcher.owed at hfirst
  rw [hfresh.stale, append_nil] at hfirst
  -- nothing owed is older than the first state
  have howed : ∀ x ∈ w.delivered, w.start.version ≤ x.resourceVersion := by
    intro x hx
    rcases mem_filterMap.1 (hfirst.subset hx) with ⟨c, hc, hconv⟩
    rw [(resourceVersion_convertChange hconv).1]
    rcases mem_append.1 hc with hc | hc
    · exact Nat.le_of_eq (hbegin.initial c hc).1.symm
    · exact (of_decide_eq_true (mem_filter.1 hc).2).le
  refine ⟨?_, ?_, ?_, ?_⟩
  · rcases hfirst with ⟨more, hmore⟩
    have hlegal := legal_chain w.filter (hbegin.chain hzero hrecorded)
    rw [← hmore, filterMap_append] at hlegal
    exact (legal_append.1 hlegal).1
  · intro x hx
    by_cases hmark : x.isBookmark = true
    · refine (hfresh.stream.marks x ?_ hmark).1
      unfold CacheWatcher.assured
      rw [append_assoc]
      exact mem_append_left _ hx
    · exact howed x (mem_data.2 ⟨hx, Bool.eq_false_iff.2 hmark⟩)
  all_goals rw [filterMap_append] at hfirst
  · intro hall
    constructor
    · unfold lastVersion
      split
      · rename_i e hlast
        exact howed e (mem_of_getLast? hlast)
      · exact le_rfl
    rcases hall with ⟨events, hevents⟩
    have hnext : events <+: ((s.epochs w.start.epoch).log.filter fun c =>
        decide (w.start.version < c.resourceVersion)).filterMap
          (convertChange cfg w.filter) := by
      rw [← hevents] at hfirst
      exact (prefix_append_right_inj _).1 hfirst
    have hadditions : lastVersion w.start.version
        (w.start.initial.filterMap (convertChange cfg w.filter)) =
        w.start.version := by
      refine lastVersion_of_forall ?_
      intro e he
      rcases mem_filterMap.1 he with ⟨c, hc, hconv⟩
      rw [(resourceVersion_convertChange hconv).1]
      exact (hbegin.initial c hc).1
    rcases hbegin.fresh hzero with ⟨hchain, hafter⟩
    have hreplay := replay_chain w.filter hchain
    rw [hafter] at hreplay
    rw [← hevents, filterMap_append, replay_append, lastVersion_append, hadditions]
    exact (congrArg (fun m => replay m _) hreplay).trans
      (replay_isPrefix w.filter hrecorded _ hnext)
  · intro hnot
    have hpart := ( prefix_or_prefix_of_prefix (prefix_append _ _) hfirst).resolve_left hnot
    exact ⟨hpart, fun key o ho => hbegin.replay_initial hzero hpart ho⟩

/-- A watch from version 0 on an empty store, after the dispatcher has caught up with a deletion. -/
theorem watch_from_zero_consistent_item : ∃ tr s,
    (cacher itemConfig).ReachWhen StartsCaughtUp tr s ∧
    (s.heap 0).delivered = [.added ⟨"/a", 3⟩ 3] ∧ (s.heap 0).start.version = 2 ∧
    Legal (fun _ => none) [.added "/a" (⟨"/a", 3⟩ : Item)] ∧
    ∀ x ∈ (s.heap 0).result, 2 ≤ x.resourceVersion := by
  rcases (cacher itemConfig).exists_reachWhen StartsCaughtUp
    (fun s => (s.watcherIdx, (s.heap 0).start.asked, (s.heap 0).start.version,
      (s.heap 0).delivered))
    ([.startCaching, .replace [⟨"/a", 1⟩] 1] ++ change .deleted ⟨"/a", 2⟩ 0 ++
      [.watch (watchAll 0), .register 0 asListed 0] ++ change .added ⟨"/a", 3⟩ 1 ++ deliver 0)
    (1, 0, 2, [.added ⟨"/a", 3⟩ 3]) (by decide +kernel) with ⟨s, hreach, hs⟩
  simp only [Prod.mk.injEq] at hs
  rcases hs with ⟨hidx, hasked, hver, hdeliv⟩
  rcases watch_from_zero_consistent hreach (i := 0) (by omega) hasked with ⟨hlegal, holder, -⟩
  rw [hdeliv] at hlegal
  rw [hver] at holder
  exact ⟨_, s, hreach, hdeliv, hver, hlegal, holder⟩

/-- The deletion of the only object is applied and not dispatched when a watch from version 0 is
registered. Its watcher has no additions, and sends the deletion as its first event. -/
theorem zero_watch_on_empty_store : ∃ tr s, (cacher itemConfig).Reach tr s ∧
    0 < s.watcherIdx ∧ (s.heap 0).start.asked = 0 ∧
    ¬ Legal (fun _ => none) ((s.heap 0).delivered.filterMap (WatchEvent.notice itemConfig)) := by
  rcases (cacher itemConfig).exists_reach
    (fun s => (s.watcherIdx, (s.heap 0).start.asked, (s.heap 0).delivered))
    ([.startCaching, .replace [⟨"/a", 1⟩] 1, .process .deleted ⟨"/a", 2⟩ 0, .watch (watchAll 0),
      .register 0 asListed 0, .push, .pop] ++ dispatchTo 1 0 ++ deliver 0)
    (1, 0, [.deleted ⟨"/a", 2⟩ 2]) (by decide +kernel) with ⟨s, hreach, hs⟩
  simp only [Prod.mk.injEq] at hs
  rcases hs with ⟨hidx, hasked, hdeliv⟩
  refine ⟨_, s, hreach, by omega, hasked, ?_⟩
  rw [hdeliv]
  rintro ⟨hdeleted, -⟩
  exact hdeleted rfl

end Cacher

end Kubernetes.Apiserver
