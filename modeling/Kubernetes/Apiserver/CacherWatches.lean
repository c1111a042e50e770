import Kubernetes.Apiserver.CacherStreams

/-! # What clients of the cacher can rely on

Results about the events that a watcher has sent:

* `resumed_watch_gapless`: a watch from a positive version sends the changes after it, none is
  left out and none comes twice, and replaying them follows the filtered state;
* `bookmark_after_events`: a bookmark comes after everything up to its version. A watch from
  version 0 is only told the state it starts from, not the changes that led there
  (`bookmark_after_unsent`).
-/

namespace Kubernetes.Apiserver

open ChangeLog Watermark List Function

variable {O : Type} {cfg : Config O}

/-- The events that a watcher has sent, without the bookmarks. -/
def CacheWatcher.delivered (w : CacheWatcher O) : List (WatchEvent O) :=
  data WatchEvent.isBookmark w.result

/-- The version of the last event, or `rv` if there is none. -/
def lastVersion (rv : ℕ) (events : List (WatchEvent O)) : ℕ :=
  match events.getLast? with
  | some e => e.resourceVersion
  | none => rv

namespace Cacher

/-- All changes since the last list. -/
def history (s : Cacher O) : List (Change O) := (s.epochs s.epoch).log

/-- The content of the cache at a version, after a given list. -/
def contentAt (s : Cacher O) (epoch rv : ℕ) : String → Option O :=
  after (s.epochs epoch).objects
    ((s.epochs epoch).log.filter fun c => decide (c.resourceVersion ≤ rv))

variable {s s' : Cacher O} {i floor : ℕ}

/-! ## Changes up to a version -/

lemma filter_le_append_filter_lt {log : List (Change O)} (rv : ℕ)
    (h : log.Pairwise fun a b => a.resourceVersion < b.resourceVersion) :
    log = log.filter (fun c => decide (c.resourceVersion ≤ rv)) ++
      log.filter fun c => decide (rv < c.resourceVersion) := by
  induction log with
  | nil => rfl
  | cons a log ih =>
    rcases pairwise_cons.1 h with ⟨ha, hlog⟩
    rw [filter_cons, filter_cons]
    by_cases hle : a.resourceVersion ≤ rv
    · rw [if_pos (decide_eq_true hle), if_neg (by simpa using hle), cons_append, ← ih hlog]
    -- nothing after `a` is old
    have hold : log.filter (fun c => decide (c.resourceVersion ≤ rv)) = [] := by
      refine filter_eq_nil_iff.2 ?_
      intro c hc hcle
      have hlt := ha c hc
      have hcle' := of_decide_eq_true hcle
      omega
    have hsplit := ih hlog
    rw [hold, nil_append] at hsplit
    rw [if_neg (by simpa using hle), if_pos (by simpa using hle), hold, nil_append, ← hsplit]

lemma filter_le_of_append {front back : List (Change O)} {c : Change O}
    (h : (front ++ c :: back).Pairwise fun a b => a.resourceVersion < b.resourceVersion) :
    (front ++ c :: back).filter (fun a => decide (a.resourceVersion ≤ c.resourceVersion)) =
      front ++ [c] := by
  rcases pairwise_append.1 h with ⟨-, hback, hcross⟩
  have hfront : front.filter (fun a => decide (a.resourceVersion ≤ c.resourceVersion)) = front := by
    refine filter_eq_self.2 ?_
    intro a ha
    exact decide_eq_true (hcross a ha c mem_cons_self).le
  have hlate : back.filter (fun a => decide (a.resourceVersion ≤ c.resourceVersion)) = [] := by
    refine filter_eq_nil_iff.2 ?_
    intro a ha hle
    have hlt := (pairwise_cons.1 hback).1 a ha
    have hle' := of_decide_eq_true hle
    omega
  rw [filter_append, hfront, filter_cons, if_pos (decide_eq_true le_rfl), hlate]

/-! ## How watchers start -/

/-- What is known of the start of a watcher. -/
structure Begun (cfg : Config O) (s : Cacher O) (i : ℕ) : Prop where
  resumed : 0 < (s.heap i).start.asked →
    (s.heap i).start.version = (s.heap i).start.asked ∧ (s.heap i).start.initial = [] ∧
      (s.heap i).start.stale = []
  fresh : (s.heap i).start.asked = 0 →
    Chain cfg (fun _ => none) (s.heap i).start.initial ∧
      after (fun _ => none) (s.heap i).start.initial =
        s.contentAt (s.heap i).start.epoch (s.heap i).start.version
  initial : ∀ c ∈ (s.heap i).start.initial,
    c.resourceVersion = (s.heap i).start.version ∧ c.previous = none
  stale : ∀ c ∈ (s.heap i).start.stale, c.resourceVersion ≤ (s.heap i).start.version
  threshold : (s.heap i).start.initial = [] ∨
    (s.heap i).resourceVersion = (s.heap i).start.version
  version_le : (s.heap i).start.asked = 0 →
    (s.heap i).start.version ≤ s.watchCache.resourceVersion

variable {l : Label O}

lemma sameBegin_step (hi : i < s.watcherIdx) (hstep : Step cfg s l s') :
    SameBegin (s.heap i) (s'.heap i) := by
  have hset : ∀ j w, SameBegin (s.heap j) w → SameBegin (s.heap i) ((s.setWatcher j w).heap i) := by
    intro j w hw
    show SameBegin (s.heap i) (Function.update s.heap j w i)
    by_cases hij : i = j
    · subst hij
      rw [update_self]
      exact hw
    · rw [update_of_ne hij]
      exact SameBegin.refl _
  have hstop : ∀ numbers, SameBegin (s.heap i) (stopAll s.heap numbers i) := fun numbers =>
    (Stream.assured_stopAll cfg s.heap numbers i []).1
  have hstopped : ∀ numbers iw,
      SameBegin (s.heap i) ((stopWatchers { s with watchers := iw } numbers).heap i) := by
    intro numbers iw
    show SameBegin _ ((if s.dispatching then s.heap else stopAll s.heap numbers) i)
    split
    · exact SameBegin.refl _
    · exact hstop numbers
  cases hstep with
  | startCaching => exact hstopped _ _
  | register n req order now initEvents =>
    show SameBegin _ (Function.update s.heap s.watcherIdx _ i)
    rw [update_of_ne (Nat.ne_of_lt hi)]
    exact SameBegin.refl _
  | startDispatching event => cases event <;> exact SameBegin.refl _
  | addSent event j rest => exact hset j _ ⟨rfl, rfl, rfl⟩
  | retrySent event j rest => exact hset j _ ⟨rfl, rfl, rfl⟩
  | retryClosed event j rest => exact hstopped _ _
  | finishDispatching event => exact hstop _
  | take j w hj hsend htake => exact hset j w (sameBegin_take htake)
  | send j event => exact hset j _ ⟨rfl, rfl, rfl⟩
  | drop j event => exact hset j _ ⟨rfl, rfl, rfl⟩
  | cancel j => exact hset j _ ⟨rfl, rfl, rfl⟩
  | stop j => exact hstopped _ _
  | _ => exact SameBegin.refl _

/-- A step appends at most one change, newer than everything before, to the last list. -/
lemma epochs_step (hstep : Step cfg s l s') {e : ℕ} (he : e ≤ s.epoch) :
    (s'.epochs e = s.epochs e ∨ ∃ c, s.watchCache.resourceVersion < c.resourceVersion ∧
      s'.epochs e = { s.epochs e with log := (s.epochs e).log ++ [c] }) ∧
    s.watchCache.resourceVersion ≤ s'.watchCache.resourceVersion := by
  cases hstep with
  | process type object now hconn hpend hrv =>
    refine ⟨?_, hrv.le⟩
    by_cases hcur : e = s.epoch
    · subst hcur
      exact Or.inr ⟨s.watchCache.eventOf cfg type object now, hrv, update_self _ _ _⟩
    · exact Or.inl (update_of_ne hcur _ _)
  | updateResourceVersion rv hconn hpend hrv => exact ⟨Or.inl rfl, hrv⟩
  | replace objs version hconn hpos hrv =>
    exact ⟨Or.inl (update_of_ne (by omega) _ _), hrv⟩
  | startDispatching event => cases event <;> exact ⟨Or.inl rfl, le_rfl⟩
  | _ => exact ⟨Or.inl rfl, le_rfl⟩

/-- The content at a version that was reached does not change any more. -/
lemma contentAt_step (hstep : Step cfg s l s') {e rv : ℕ} (he : e ≤ s.epoch)
    (hrv : rv ≤ s.watchCache.resourceVersion) : s'.contentAt e rv = s.contentAt e rv := by
  unfold contentAt
  rcases (epochs_step hstep he).1 with heq | ⟨c, hc, heq⟩
  · rw [heq]
  rw [heq]
  show after _ (((s.epochs e).log ++ [c]).filter _) = _
  have hnew : [c].filter (fun c => decide (c.resourceVersion ≤ rv)) = [] := by
    refine filter_eq_nil_iff.2 ?_
    intro a ha hle
    have hle' := of_decide_eq_true hle
    rw [mem_singleton.1 ha] at hle'
    omega
  rw [filter_append, hnew, append_nil]

lemma Begun.step (h : Begun cfg s i) (hi : i < s.watcherIdx) (hs : Stream cfg floor s i)
    (hstep : Step cfg s l s') : Begun cfg s' i := by
  have hbegin := sameBegin_step hi hstep
  have hmono := (epochs_step hstep hs.epoch_le).2
  constructor
  · rw [hbegin.start]
    exact h.resumed
  · rw [hbegin.start]
    intro hzero
    rw [contentAt_step hstep hs.epoch_le (h.version_le hzero)]
    exact h.fresh hzero
  · rw [hbegin.start]
    exact h.initial
  · rw [hbegin.start]
    exact h.stale
  · rw [hbegin.start, hbegin.resourceVersion]
    exact h.threshold
  · rw [hbegin.start]
    intro hzero
    exact (h.version_le hzero).trans hmono

lemma begun_register (hw : Wired cfg s) (n : ℕ) {req : WatchRequest} {order : IterOrder String}
    {initEvents : List (Change O)}
    (hevents : s.watchCache.getAllEventsSince cfg req.resourceVersion order = .ok initEvents)
    (allow : Bool) (now : ℤ) :
    Begun cfg ((s.leave n).addWatcher (s.newWatcher cfg req initEvents) allow now)
      s.watcherIdx := by
  set w := s.newWatcher cfg req initEvents with hwatcher
  set s' := (s.leave n).addWatcher w allow now with hs'
  have hheap : s'.heap s.watcherIdx = w := update_self _ _ _
  by_cases hzero : req.resourceVersion = 0
  · have hver : w.start.version = s.watchCache.resourceVersion := if_pos hzero
    have hinit : w.start.initial = initEvents := if_pos hzero
    have hadditions : initEvents = additions cfg s.watchCache (order.order s.watchCache.store.keys) := by
      rw [hzero] at hevents
      exact WatchCache.getAllEventsSince_zero cfg hevents
    have hsame : ∀ c ∈ initEvents,
        c.resourceVersion = s.watchCache.resourceVersion ∧ c.previous = none := by
      intro c hc
      rw [hadditions] at hc
      exact mem_additions hc
    constructor
    · rw [hheap]
      intro hpos
      have hpos' : 0 < req.resourceVersion := hpos
      omega
    · rw [hheap, hinit, hver]
      intro _
      rcases chain_additions hw.history.keyed order with ⟨hchain, hafter⟩
      rw [hadditions]
      refine ⟨hchain, hafter.trans ?_⟩
      -- all changes so far are up to the version of the cache
      have hall : (s.epochs s.epoch).log.filter
          (fun c => decide (c.resourceVersion ≤ s.watchCache.resourceVersion)) =
          (s.epochs s.epoch).log := by
        refine filter_eq_self.2 ?_
        intro c hc
        exact decide_eq_true (hw.history.latest c hc)
      show _ = after (s.epochs s.epoch).objects ((s.epochs s.epoch).log.filter _)
      rw [hw.history.store, hall]
    · rw [hheap, hinit, hver]
      exact hsame
    · rw [hheap, hver]
      intro c hc
      have hc' : c ∈ if req.resourceVersion = 0 then s.coming.filter _ else [] := hc
      rw [if_pos hzero] at hc'
      exact hw.pipeline.below _ (mem_coming (mem_of_mem_filter hc'))
    · rw [hheap, hinit, hver]
      rcases eq_nil_or_concat initEvents with hnil | ⟨front, last, hconcat⟩
      · exact Or.inl hnil
      right
      show watchRV req.resourceVersion initEvents = _
      rw [hconcat, concat_eq_append] at hsame ⊢
      unfold watchRV
      rw [getLast?_concat]
      exact (hsame last (mem_append_right _ (mem_singleton_self _))).1
    · rw [hheap, hver]
      intro _
      exact le_rfl
  · have hinit : w.start.initial = [] := if_neg hzero
    have hstale : w.start.stale = [] := if_neg hzero
    constructor
    · rw [hheap]
      intro _
      exact ⟨if_neg hzero, hinit, hstale⟩
    · rw [hheap]
      intro hasked
      exact absurd hasked hzero
    · rw [hheap, hinit]
      intro c hc
      cases hc
    · rw [hheap, hstale]
      intro c hc
      cases hc
    · rw [hheap]
      exact Or.inl hinit
    · rw [hheap]
      intro hasked
      exact absurd hasked hzero

lemma begun_step (h : Streaming cfg s) (hbegun : ∀ i < s.watcherIdx, Begun cfg s i)
    (hstep : Step cfg s l s') : ∀ i < s'.watcherIdx, Begun cfg s' i := by
  intro i hi
  rcases watcher_step hstep hi with hold |
    ⟨rfl, n, req, order, now, initEvents, -, hevents, -, rfl⟩
  · exact (hbegun i hold).step hold (h.stream i hold) hstep
  · exact begun_register h.wired n hevents _ _

/-- The invariant of runs in which watchers are registered while the cache is ready. -/
lemma begun_of_reach {tr : List (Label O)} (h : (cacher cfg).ReachWhen RegistersReady tr s) :
    Streaming cfg s ∧ ∀ i < s.watcherIdx, Begun cfg s i := by
  refine h.invariant (fun s => Streaming cfg s ∧ ∀ i < s.watcherIdx, Begun cfg s i) ?_ ?_
  · refine ⟨Streaming.init, ?_⟩
    intro i hi
    exact absurd hi (Nat.not_lt_zero i)
  rintro s l s' ⟨hinv, hbegun⟩ hok hstep
  have hcases := step_cases hstep
  exact ⟨hinv.step hok hcases, begun_step hinv hbegun hcases⟩

lemma Stream.serves_result (h : Stream cfg floor s i) :
    ∃ rest, Serves WatchEvent.isBookmark WatchEvent.resourceVersion (s.heap i).result rest
      ((s.heap i).owed cfg (s.epochs (s.heap i).start.epoch).log) := by
  rcases h.served with ⟨rest, hserves, -⟩
  unfold CacheWatcher.assured at hserves
  rw [append_assoc] at hserves
  exact ⟨_, hserves.takeBack⟩

/-! ## Resumed watches -/

/-- The connection of the reflector does not break. -/
def NoRelist (_ : Cacher O) : Label O → Prop
  | .disconnect => False
  | _ => True

instance : ∀ (s : Cacher O) (l : Label O), Decidable (NoRelist s l) := fun s l => by
  unfold NoRelist
  split <;> infer_instance

/-- As long as the connection does not break there is one list, before any watcher. -/
structure Once (s : Cacher O) : Prop where
  before : s.connection ≠ .connected → s.ready = false ∧ s.waiting = [] ∧ s.watcherIdx = 0
  since : s.connection = .connected → s.ready = true
  epoch : ∀ i < s.watcherIdx, (s.heap i).start.epoch = s.epoch

lemma Once.step (h : Once s) (hok : NoRelist s l) (hstep : Step cfg s l s') :
    RegistersReady s l ∧ Once s' := by
  -- a watch that is past `ready.wait()` finds the cache connected
  have hwaiting : ∀ {n : ℕ} {req : WatchRequest}, s.waiting[n]? = some req →
      s.connection = .connected := by
    intro n req hreq
    by_contra hconn
    rw [(h.before hconn).2.1] at hreq
    cases hreq
  have hkeep : ∀ (hi : ∀ i < s.watcherIdx, SameBegin (s.heap i) (s'.heap i)),
      ∀ i < s.watcherIdx, (s'.heap i).start.epoch = s.epoch := by
    intro hi i hlt
    rw [(hi i hlt).start]
    exact h.epoch i hlt
  have hbegin : ∀ i < s.watcherIdx, SameBegin (s.heap i) (s'.heap i) :=
    fun i hi => sameBegin_step hi hstep
  cases hstep with
  | disconnect => exact absurd hok id
  | startCaching hconn =>
    refine ⟨trivial, ?_, ?_, hkeep hbegin⟩
    · intro _
      exact h.before (by rw [hconn]; decide)
    · intro hlist
      cases hlist
  | listFailed hconn =>
    refine ⟨trivial, ?_, ?_, hkeep hbegin⟩
    · intro _
      exact h.before (by rw [hconn]; decide)
    · intro hdown
      cases hdown
  | replace objs version hconn =>
    have hnone := (h.before (by rw [hconn]; decide)).2.2
    refine ⟨trivial, ?_, fun _ => rfl, ?_⟩
    · intro hfalse
      exact absurd rfl hfalse
    · intro i hi
      have hi' : i < s.watcherIdx := hi
      omega
  | watch req hready =>
    refine ⟨trivial, ?_, h.since, h.epoch⟩
    intro hconn
    rw [(h.before hconn).1] at hready
    cases hready
  | refuse n req order now hreq =>
    refine ⟨h.since (hwaiting hreq), ?_, h.since, h.epoch⟩
    intro hconn
    exact absurd (hwaiting hreq) hconn
  | register n req order now initEvents hreq =>
    refine ⟨h.since (hwaiting hreq), ?_, h.since, ?_⟩
    · intro hconn
      exact absurd (hwaiting hreq) hconn
    intro i hi
    by_cases hold : i < s.watcherIdx
    · exact hkeep hbegin i hold
    have hi' : i < s.watcherIdx + 1 := hi
    obtain rfl : i = s.watcherIdx := by omega
    show (Function.update s.heap s.watcherIdx _ s.watcherIdx).start.epoch = s.epoch
    rw [update_self]
  | startDispatching event =>
    cases event <;> exact ⟨trivial, h.before, h.since, hkeep hbegin⟩
  | _ => exact ⟨trivial, h.before, h.since, hkeep hbegin⟩

lemma begun_of_noRelist {tr : List (Label O)} (h : (cacher cfg).ReachWhen NoRelist tr s) :
    Once s ∧ Streaming cfg s ∧ ∀ i < s.watcherIdx, Begun cfg s i := by
  have honce : Once (newCacher O) := by
    refine ⟨fun _ => ⟨rfl, rfl, rfl⟩, ?_, ?_⟩
    · intro hconn
      cases hconn
    · intro i hi
      exact absurd hi (Nat.not_lt_zero i)
  rcases h.strengthen Once honce
    (fun s l s' hinv hok hstep => hinv.step hok (step_cases hstep)) with ⟨hready, hinv⟩
  exact ⟨hinv, begun_of_reach hready⟩

/-- Replaying a first part of the watch events of a chain gives the filtered content at the version
of the last of them. -/
lemma replay_isPrefix (filter : Filter) {e : Epoch O} (he : Recorded cfg e) (rv : ℕ)
    {events : List (WatchEvent O)}
    (h : events <+: (e.log.filter fun c => decide (rv < c.resourceVersion)).filterMap
      (convertChange cfg filter)) :
    replay (filtered (passes cfg filter)
        (after e.objects (e.log.filter fun c => decide (c.resourceVersion ≤ rv))))
        (events.filterMap (WatchEvent.notice cfg)) =
      filtered (passes cfg filter) (after e.objects
        (e.log.filter fun c => decide (c.resourceVersion ≤ lastVersion rv events))) := by
  set front := e.log.filter fun c => decide (c.resourceVersion ≤ rv) with hfront
  rcases exists_of_isPrefix_filterMap h with ⟨part, rest, hlog, hevents, hlast⟩
  have hsplit : e.log = front ++ (part ++ rest) := by
    rw [← hlog]
    exact filter_le_append_filter_lt rv he.ascending
  have hchain : Chain cfg (after e.objects front) part := by
    have hchain := he.chain
    rw [hsplit, chain_append, chain_append] at hchain
    exact hchain.2.1
  rw [hevents, replay_chain filter hchain, ← after_append]
  congr 2
  rcases hlast with rfl | ⟨part, c, event, rfl, hconv⟩
  · rw [append_nil]
    exact hfront
  -- the last event that was sent comes of the last change
  have hver : lastVersion rv ((part ++ [c]).filterMap (convertChange cfg filter)) =
      c.resourceVersion := by
    unfold lastVersion
    rw [filterMap_append, filterMap_cons_some hconv, filterMap_nil, getLast?_concat]
    exact (resourceVersion_convertChange hconv).1
  have hascending := he.ascending
  have hsplit' : e.log = (front ++ part) ++ c :: rest := by
    rw [hsplit]
    simp only [append_assoc, singleton_append]
  rw [hver]
  rw [hsplit'] at hascending ⊢
  rw [filter_le_of_append hascending, append_assoc]

/-- A watch from a positive version is gapless and free of duplicates: what was sent so far are
the first watch events of the changes after the version, and replaying them on the filtered
content at that version gives the filtered content after the last of them. -/
theorem resumed_watch_gapless {tr : List (Label O)} (h : (cacher cfg).ReachWhen NoRelist tr s)
    (hi : i < s.watcherIdx) (hasked : 0 < (s.heap i).start.asked) :
    (s.heap i).delivered <+: (s.history.filter fun c =>
        decide ((s.heap i).start.asked < c.resourceVersion)).filterMap
          (convertChange cfg (s.heap i).filter) ∧
      replay (filtered (passes cfg (s.heap i).filter)
          (s.contentAt s.epoch (s.heap i).start.asked))
          ((s.heap i).delivered.filterMap (WatchEvent.notice cfg)) =
        filtered (passes cfg (s.heap i).filter)
          (s.contentAt s.epoch (lastVersion (s.heap i).start.asked (s.heap i).delivered)) := by
  rcases begun_of_noRelist h with ⟨honce, hstreaming, hbegun⟩
  rcases (hbegun i hi).resumed hasked with ⟨hver, hinit, hstale⟩
  rcases (hstreaming.stream i hi).serves_result with ⟨rest, hserves⟩
  have hfirst := hserves.data_isPrefix
  unfold CacheWatcher.owed at hfirst
  rw [hver, hinit, hstale, honce.epoch i hi] at hfirst
  exact ⟨hfirst, replay_isPrefix _ (hstreaming.wired.history.recorded s.epoch) _ hfirst⟩

/-! ### Runs with objects that have only a name -/

/-- An object with a name and a version. -/
structure Item where
  name : String
  version : ℕ
deriving DecidableEq

/-- Items are indexed by their name. -/
def itemConfig : Config Item where
  keyFunc o := o.name
  getAttrs o := (∅, AList.singleton "name" o.name)
  objectResourceVersion := Item.version
  updateObject o rv := { o with version := rv }
  newFunc := ⟨"", 0⟩
  indexedTrigger := some ⟨"name", Item.name⟩
  indexer_eq := by
    intro t ht o
    cases ht
    rfl
  keyFunc_updateObject _ _ := rfl

/-- A watch of everything, with bookmarks. -/
def watchAll (rv : ℕ) : WatchRequest :=
  { key := "/", pred := ⟨⟨fun _ => true, true⟩, .andTerm [], [], true⟩, resourceVersion := rv,
    deadline := none }

abbrev asListed {K : Type} : IterOrder K := ⟨id, fun _ => .refl _⟩

/-- The dispatcher hands what it is busy with to `n` watchers. -/
def dispatchTo (n : ℕ) (now : ℤ) : List (Label Item) :=
  [.startDispatching asListed asListed now fun _ => now] ++ List.replicate n .nonblockingAdd ++
    [.finishDispatching]

/-- A change is applied, queued and dispatched to `n` watchers. -/
def change (type : ChangeType) (object : Item) (n : ℕ) : List (Label Item) :=
  [.process type object 0, .push, .pop] ++ dispatchTo n 0

/-- A watcher takes its next event and sends it. -/
def deliver (i : ℕ) : List (Label Item) := [.take i, .send i]

/-- A watch from version 1 is sent the modification of version 2. -/
theorem resumed_watch_gapless_item : ∃ tr s, (cacher itemConfig).ReachWhen NoRelist tr s ∧
    (s.heap 0).delivered = [.modified ⟨"/a", 2⟩ 2] ∧
    replay (filtered (passes itemConfig (s.heap 0).filter) (s.contentAt s.epoch 1))
        [.modified "/a" ⟨"/a", 2⟩] =
      filtered (passes itemConfig (s.heap 0).filter) (s.contentAt s.epoch 2) := by
  rcases (cacher itemConfig).exists_reachWhen NoRelist
    (fun s => (s.watcherIdx, (s.heap 0).start.asked, (s.heap 0).delivered))
    ([.startCaching, .replace [⟨"/a", 1⟩] 1, .watch (watchAll 1), .register 0 asListed 0] ++
      change .modified ⟨"/a", 2⟩ 1 ++ deliver 0)
    (1, 1, [.modified ⟨"/a", 2⟩ 2]) (by decide +kernel) with ⟨s, hreach, hs⟩
  simp only [Prod.mk.injEq] at hs
  rcases hs with ⟨hidx, hasked, hdeliv⟩
  refine ⟨_, s, hreach, hdeliv, ?_⟩
  have hreplay := (resumed_watch_gapless hreach (i := 0) (by omega) (by omega)).2
  rw [hasked, hdeliv] at hreplay
  exact hreplay

/-! ## Bookmarks -/

/-- A watcher has sent everything up to the version of a bookmark before it: the changes after the
version it was asked for or, if that is 0, additions for a state of the cache and the changes
after it. -/
theorem bookmark_after_events {tr : List (Label O)} (h : (cacher cfg).ReachWhen NoRelist tr s)
    (hi : i < s.watcherIdx) {pre post : List (WatchEvent O)} {b : WatchEvent O}
    (hresult : (s.heap i).result = pre ++ b :: post) (hb : b.isBookmark = true) :
    (0 < (s.heap i).start.asked → ∀ c ∈ s.history,
      (s.heap i).start.asked < c.resourceVersion → c.resourceVersion ≤ b.resourceVersion →
        ∀ e, convertChange cfg (s.heap i).filter c = some e → e ∈ pre) ∧
    ((s.heap i).start.asked = 0 →
      (s.heap i).start.initial.filterMap (convertChange cfg (s.heap i).filter) <+:
          data WatchEvent.isBookmark pre ∧
        replay (fun _ => none)
            (((s.heap i).start.initial.filterMap (convertChange cfg (s.heap i).filter)).filterMap
              (WatchEvent.notice cfg)) =
          filtered (passes cfg (s.heap i).filter) (s.contentAt s.epoch (s.heap i).start.version) ∧
        ∀ c ∈ s.history,
          (s.heap i).start.version < c.resourceVersion → c.resourceVersion ≤ b.resourceVersion →
            ∀ e, convertChange cfg (s.heap i).filter c = some e → e ∈ pre) := by
  rcases begun_of_noRelist h with ⟨honce, hstreaming, hbegun⟩
  have hstream := hstreaming.stream i hi
  have hbegin := hbegun i hi
  rcases hstream.serves_result with ⟨rest, hserves⟩
  rw [hresult, honce.epoch i hi] at hserves
  rcases hserves.before_mark hb with ⟨late, howed, hlate⟩
  have hall : ∀ c ∈ s.history, (s.heap i).start.version < c.resourceVersion →
      c.resourceVersion ≤ b.resourceVersion →
      ∀ e, convertChange cfg (s.heap i).filter c = some e → e ∈ pre := by
    intro c hc hafter hle e hconv
    have hmem : e ∈ (s.heap i).owed cfg (s.epochs s.epoch).log := by
      refine mem_filterMap.2 ⟨c, ?_, hconv⟩
      exact mem_append_right _ (mem_filter.2 ⟨hc, decide_eq_true hafter⟩)
    rw [howed] at hmem
    rcases mem_append.1 hmem with hmem | hmem
    · exact (mem_data.1 hmem).1
    · have hlt := hlate e hmem
      rw [(resourceVersion_convertChange hconv).1] at hlt
      omega
  constructor
  · intro hasked
    rw [← (hbegin.resumed hasked).1]
    exact hall
  intro hzero
  rcases hbegin.fresh hzero with ⟨hchain, hafter⟩
  rw [honce.epoch i hi] at hafter
  refine ⟨?_, ?_, hall⟩
  · -- the additions are not newer than the bookmark
    rcases hbegin.threshold with hnil | hthreshold
    · rw [hnil]
      exact nil_prefix
    have hnewer : (s.heap i).resourceVersion < b.resourceVersion := by
      refine (hstream.marks b ?_ hb).2.1
      unfold CacheWatcher.assured
      rw [hresult]
      simp
    unfold CacheWatcher.owed at howed
    rw [append_assoc, filterMap_append] at howed
    refine isPrefix_of_append_eq (P := fun e => e.resourceVersion ≤ b.resourceVersion) howed
      ?_ ?_
    · intro e he
      rcases mem_filterMap.1 he with ⟨c, hc, hconv⟩
      rw [(resourceVersion_convertChange hconv).1, (hbegin.initial c hc).1, ← hthreshold]
      exact hnewer.le
    · intro e he hle
      have hlt := hlate e he
      omega
  · have hreplay := replay_chain (s.heap i).filter hchain
    rw [hafter] at hreplay
    exact hreplay

/-- An object is added and modified, then a watch from version 0 is sent it as an addition, one
more addition and a bookmark. -/
lemma bookmark_run : ∃ tr s, (cacher itemConfig).ReachWhen NoRelist tr s ∧ s.watcherIdx = 1 ∧
    (s.heap 0).start.asked = 0 ∧
    (s.heap 0).result =
      [.added ⟨"/a", 3⟩ 3, .added ⟨"/b", 4⟩ 4] ++ .bookmark ⟨"", 4⟩ 4 :: [] ∧
    s.history.filterMap (convertChange itemConfig (s.heap 0).filter) =
      [.added ⟨"/a", 2⟩ 2, .modified ⟨"/a", 3⟩ 3, .added ⟨"/b", 4⟩ 4] := by
  rcases (cacher itemConfig).exists_reachWhen NoRelist
    (fun s => (s.watcherIdx, (s.heap 0).start.asked, (s.heap 0).result,
      s.history.filterMap (convertChange itemConfig (s.heap 0).filter)))
    ([.startCaching, .replace [] 1] ++ change .added ⟨"/a", 2⟩ 0 ++
      change .modified ⟨"/a", 3⟩ 0 ++ [.watch (watchAll 0), .register 0 asListed 0] ++
      deliver 0 ++ change .added ⟨"/b", 4⟩ 1 ++ deliver 0 ++
      [.bookmarkTimer (61 * second)] ++ dispatchTo 1 (61 * second) ++ deliver 0)
    (1, 0, [.added ⟨"/a", 3⟩ 3, .added ⟨"/b", 4⟩ 4, .bookmark ⟨"", 4⟩ 4],
      [.added ⟨"/a", 2⟩ 2, .modified ⟨"/a", 3⟩ 3, .added ⟨"/b", 4⟩ 4])
    (by decide +kernel) with ⟨s, hreach, hs⟩
  simp only [Prod.mk.injEq] at hs
  exact ⟨_, s, hreach, hs⟩

theorem bookmark_after_events_item : ∃ tr s, (cacher itemConfig).ReachWhen NoRelist tr s ∧
    (s.heap 0).result = [.added ⟨"/a", 3⟩ 3, .added ⟨"/b", 4⟩ 4] ++ .bookmark ⟨"", 4⟩ 4 :: [] ∧
    ∀ c ∈ s.history, (s.heap 0).start.version < c.resourceVersion → c.resourceVersion ≤ 4 →
      ∀ e, convertChange itemConfig (s.heap 0).filter c = some e →
        e ∈ [.added ⟨"/a", 3⟩ 3, .added ⟨"/b", 4⟩ 4] := by
  rcases bookmark_run with ⟨tr, s, hreach, hidx, hasked, hresult, -⟩
  refine ⟨tr, s, hreach, hresult, ?_⟩
  exact ((bookmark_after_events hreach (i := 0) (by omega) hresult rfl).2 hasked).2.2

/-- The addition of version 2 is between version 0 and the bookmark, and was never sent. -/
theorem bookmark_after_unsent : ∃ tr s pre b post c e,
    (cacher itemConfig).ReachWhen NoRelist tr s ∧ 0 < s.watcherIdx ∧
    (s.heap 0).result = pre ++ b :: post ∧ b.isBookmark = true ∧ c ∈ s.history ∧
    (s.heap 0).start.asked < c.resourceVersion ∧ c.resourceVersion ≤ b.resourceVersion ∧
    convertChange itemConfig (s.heap 0).filter c = some e ∧ e ∉ pre := by
  rcases bookmark_run with ⟨tr, s, hreach, hidx, hasked, hresult, hhistory⟩
  have hmem : .added ⟨"/a", 2⟩ 2 ∈
      s.history.filterMap (convertChange itemConfig (s.heap 0).filter) := by
    rw [hhistory]
    exact mem_cons_self
  rcases mem_filterMap.1 hmem with ⟨c, hc, hconv⟩
  have hver : 2 = c.resourceVersion := (resourceVersion_convertChange hconv).1
  refine ⟨tr, s, _, _, _, c, _, hreach, by omega, hresult, rfl, hc, by omega, ?_, hconv, by decide⟩
  show c.resourceVersion ≤ 4
  omega

end Cacher

end Kubernetes.Apiserver
