import Kubernetes.Apiserver.WatchEvents
import Kubernetes.NestedMap

/-! # One stream of events for many watchers

A model of `storage/cacher/cacher.go`. Several goroutines share the cacher:

* the *reflector* lists the storage, applies the events of a watch to the watch cache and pushes
  them into the queue `incoming`; when its connection breaks it terminates all watchers and lists
  again;
* the *dispatcher* pops one event after the other and adds it to the input channels of the
  watchers that may be interested: those registered without a trigger value and, by the index,
  those registered for a value of the object. Watchers whose channel is full are tried again
  until a timer fires, and are then closed. When its bookmark timer fires it sends the version of
  the last event it processed to the watchers whose bookmark is due;
* a call of `Watch` waits until the cache is ready, takes the events since its version and
  registers a watcher;
* each *watcher* sends the events it starts with and then those from its input channel that are
  newer, as far as its filter is interested.

A label is what one goroutine does under the locks it holds. Clock readings and the orders in
which maps are ranged over are part of the label. A watcher is known by its number, with which it
is kept in `heap`; `result` has everything it ever sent, since the client can always receive.
What the fields of `Start` and `Epoch` say of the past is not in the code: they record the versions
and lists that the results are about.

The storage is assumed to give its events strictly increasing resource versions, with progress
notifications and lists that are not older than what came before.
-/

namespace Kubernetes.Apiserver

/-! ## Watchers -/

/-- The arguments of `Watch`. -/
structure WatchRequest where
  key : String
  pred : SelectionPredicate
  resourceVersion : ℕ
  deadline : Option ℤ

/-- How a watcher started: the version that was asked for, the version of the state that it
starts from, the list that the cache had then, the additions it was given for version 0, and
the events that were still to be dispatched and that it will not recognise as old. -/
structure Start (O : Type) where
  asked : ℕ
  version : ℕ
  epoch : ℕ
  initial : List (Change O)
  stale : List (Change O)

/-- `cacheWatcher`, and the local state of its `process`. -/
structure CacheWatcher (O : Type) where
  filter : Filter
  triggerValue : Option String
  chanSize : ℕ
  deadline : Option ℤ
  input : List (WatchCacheEvent O)
  result : List (WatchEvent O)
  stopped : Bool
  /-- The initial events that were not processed yet. -/
  initEvents : List (Change O)
  resourceVersion : ℕ
  /-- The event in the second `select` of `sendWatchCacheEvent`. -/
  sending : Option (WatchEvent O)
  /-- `process` has left its loop. -/
  finished : Bool
  start : Start O

/-- The trigger value of a request, if it is supported. -/
def triggerValue {O : Type} (cfg : Config O) (pred : SelectionPredicate) : Option String :=
  match cfg.indexedTrigger with
  | none => none
  | some t =>
    pred.indexFields.foldl (fun value field =>
      if field = t.indexName then
        match pred.field.requiresExactMatch field with
        | some v => some v
        | none => value
      else value) none

def chanSize {O : Type} (cfg : Config O) (pred : SelectionPredicate) : ℕ :=
  if cfg.indexedTrigger.isSome && (triggerValue cfg pred).isNone then 1000 else 10

/-- `indexedWatchers`: the numbers of the registered watchers. -/
structure IndexedWatchers where
  allWatchers : GoMap ℕ Unit
  valueWatchers : GoMap String (GoMap ℕ Unit)

namespace IndexedWatchers

variable (iw : IndexedWatchers) (number : ℕ)

def addWatcher : Option String → IndexedWatchers
  | some value => { iw with valueWatchers := NestedMap.put iw.valueWatchers value number () }
  | none => { iw with allWatchers := iw.allWatchers.insert number () }

def deleteWatcher : Option String → IndexedWatchers
  | some value => { iw with valueWatchers := NestedMap.delete iw.valueWatchers value number }
  | none => { iw with allWatchers := iw.allWatchers.erase number }

/-- Whether `deleteWatcher` finds the watcher. -/
def has : Option String → Bool
  | some value => (NestedMap.get iw.valueWatchers value number).isSome
  | none => (iw.allWatchers.lookup number).isSome

/-- The watchers that `terminateAll` ranges over. -/
def numbers : List ℕ :=
  iw.allWatchers.keys ++ iw.valueWatchers.entries.flatMap fun e => e.2.keys

/-- The watchers that `startDispatching` collects for an event with given trigger values. -/
def interested (order : IterOrder ℕ) (values : IterOrder String)
    (triggerValues : Option (List String)) : List ℕ :=
  order.order iw.allWatchers.keys ++
    (triggerValues.getD (values.order iw.valueWatchers.keys)).flatMap fun value =>
      order.order ((iw.valueWatchers.lookup value).getD ∅).keys

end IndexedWatchers

/-- `triggerValuesThreadUnsafe`. -/
def triggerValues {O : Type} (cfg : Config O) (c : Change O) : Option (List String) :=
  cfg.indexedTrigger.map fun t =>
    let value := t.indexerFunc c.object
    match c.previous with
    | none => [value]
    | some prev =>
      let prevTriggerValue := t.indexerFunc prev.object
      if value ≠ prevTriggerValue then [value, prevTriggerValue] else [value]

/-! ## Bookmark times -/

/-- One second. Times are in nanoseconds since the cacher was created. -/
def second : ℤ := 1000000000

/-- `defaultBookmarkFrequency`, one minute. -/
def bookmarkFrequency : ℤ := 60 * second

/-- `nextBookmarkTime`: once a minute, and two seconds before the deadline. -/
def nextBookmarkTime (deadline : Option ℤ) (now : ℤ) : Option ℤ :=
  let heartbeatTime := now + bookmarkFrequency
  match deadline with
  | none => some heartbeatTime
  | some deadline =>
    let heartbeatTime :=
      if deadline - 2 * second < heartbeatTime then deadline - 2 * second else heartbeatTime
    if heartbeatTime < now then none else some heartbeatTime

/-- `watcherBookmarkTimeBuckets`. -/
structure TimeBuckets where
  watchersBuckets : GoMap ℤ (List ℕ)
  startBucketID : ℤ

namespace TimeBuckets

variable (t : TimeBuckets)

def addWatcher (number : ℕ) (deadline : Option ℤ) (now : ℤ) : TimeBuckets :=
  match nextBookmarkTime deadline now with
  | none => t
  | some nextTime =>
    let bucketID := max (nextTime.tdiv second) t.startBucketID
    let watchers := (t.watchersBuckets.lookup bucketID).getD []
    { t with watchersBuckets := t.watchersBuckets.insert bucketID (watchers ++ [number]) }

/-- Pop the next `n` buckets. -/
def popBuckets (t : TimeBuckets) : ℕ → List ℕ × TimeBuckets
  | 0 => ([], t)
  | n + 1 =>
    let watchers := (t.watchersBuckets.lookup t.startBucketID).getD []
    let rest := popBuckets
      ⟨t.watchersBuckets.erase t.startBucketID, t.startBucketID + 1⟩ n
    (watchers ++ rest.1, rest.2)

def popExpiredWatchers (now : ℤ) : List ℕ × TimeBuckets :=
  t.popBuckets (now.tdiv second + 1 - t.startBucketID).toNat

end TimeBuckets

/-! ## The cacher -/

/-- Where `startCaching` is: not running, before the list, or after it. -/
inductive Connection where
  | down
  | listing
  | connected
deriving DecidableEq

/-- A list of the storage and the changes applied since. -/
structure Epoch (O : Type) where
  version : ℕ
  objects : String → Option O
  log : List (Change O)

/-- `Cacher`, and the local state of its goroutines. -/
structure Cacher (O : Type) where
  watchCache : WatchCache O
  connection : Connection
  ready : Bool
  /-- The event that the reflector has applied and not pushed yet. -/
  pending : Option (WatchCacheEvent O)
  incoming : List (WatchCacheEvent O)
  /-- The calls of `Watch` that are past `ready.wait()`. -/
  waiting : List WatchRequest
  watcherIdx : ℕ
  heap : ℕ → CacheWatcher O
  watchers : IndexedWatchers
  bookmarkWatchers : TimeBuckets
  /-- The event that the dispatcher is busy with. -/
  current : Option (WatchCacheEvent O)
  dispatching : Bool
  /-- The watchers that were not offered the event yet. -/
  watchersBuffer : List ℕ
  /-- The watchers that have to be offered the event once more. -/
  blockedWatchers : List ℕ
  watchersToStop : List ℕ
  /-- The timer of this dispatch has fired. -/
  timerFired : Bool
  lastProcessedResourceVersion : ℕ
  epoch : ℕ
  epochs : ℕ → Epoch O

/-- The capacity of `incoming`. -/
def incomingSize : ℕ := 100

/-- What is in `heap` under a number that is not in use. -/
def noWatcher (O : Type) : CacheWatcher O :=
  { filter := fun _ _ _ => false, triggerValue := none, chanSize := 0, deadline := none, input := [],
    result := [], stopped := true, initEvents := [], resourceVersion := 0, sending := none,
    finished := true, start := ⟨0, 0, 0, [], []⟩ }

def newCacher (O : Type) : Cacher O :=
  { watchCache := newWatchCache O, connection := .down, ready := false, pending := none,
    incoming := [], waiting := [], watcherIdx := 0, heap := fun _ => noWatcher O,
    watchers := ⟨∅, ∅⟩, bookmarkWatchers := ⟨∅, 0⟩, current := none, dispatching := false,
    watchersBuffer := [], blockedWatchers := [], watchersToStop := [], timerFired := false,
    lastProcessedResourceVersion := 0, epoch := 0, epochs := fun _ => ⟨0, fun _ => none, []⟩ }

namespace Cacher

variable {O : Type} (cfg : Config O) (s : Cacher O)

def setWatcher (i : ℕ) (w : CacheWatcher O) : Cacher O :=
  { s with heap := Function.update s.heap i w }

def registered (i : ℕ) : Bool := s.watchers.has i (s.heap i).triggerValue

/-- `stopThreadUnsafe` for each of the watchers. -/
def stopAll (heap : ℕ → CacheWatcher O) (numbers : List ℕ) : ℕ → CacheWatcher O :=
  fun i => if i ∈ numbers then { heap i with stopped := true } else heap i

/-- `stopWatcherThreadUnsafe` for each of the watchers: deferred while an event is dispatched. -/
def stopWatchers (numbers : List ℕ) : Cacher O :=
  { s with
    watchersToStop := if s.dispatching then s.watchersToStop ++ numbers else s.watchersToStop
    heap := if s.dispatching then s.heap else stopAll s.heap numbers }

/-- `forgetWatcher`: the watcher is stopped if it was still registered. -/
def forget (i : ℕ) : Cacher O :=
  stopWatchers { s with watchers := s.watchers.deleteWatcher i (s.heap i).triggerValue }
    (if s.registered i then [i] else [])

def terminateAllWatchers : Cacher O :=
  stopWatchers { s with watchers := ⟨∅, ∅⟩ } s.watchers.numbers

/-! ### The reflector -/

/-- The watch cache applies an event of the storage. -/
def process (type : ChangeType) (object : O) (now : ℤ) : Cacher O :=
  let event := s.watchCache.eventOf cfg type object now
  let epoch := s.epochs s.epoch
  { s with
    watchCache := s.watchCache.processEvent cfg type object now
    pending := some (.change event)
    epochs := Function.update s.epochs s.epoch { epoch with log := epoch.log ++ [event] } }

def updateResourceVersion (rv : ℕ) : Cacher O :=
  { s with
    watchCache := { s.watchCache with resourceVersion := rv }
    pending := some (.bookmark rv) }

variable (event : WatchCacheEvent O)

/-- `processEvent` of the cacher: the event goes into the queue. -/
def push : Cacher O :=
  { s with pending := none, incoming := s.incoming ++ [event] }

/-- `startCaching` returns after a successful list. -/
def disconnect : Cacher O := { s with ready := false, connection := .down }

/-- `startCaching` begins. -/
def startCaching : Cacher O := { s.terminateAllWatchers with connection := .listing }

/-- The list fails, and `startCaching` returns. -/
def listFailed : Cacher O := { s with connection := .down }

/-- The list succeeds: `Replace` and `onReplace`. -/
def replace (objs : List O) (version : ℕ) : Cacher O :=
  let watchCache := s.watchCache.replace cfg objs version
  { s with
    watchCache := watchCache
    ready := true
    connection := .connected
    epoch := s.epoch + 1
    epochs := Function.update s.epochs (s.epoch + 1) ⟨version, objects watchCache.store, []⟩ }

/-! ### `Watch` -/

/-- The events whose dispatch has not started. -/
def undispatched : List (WatchCacheEvent O) :=
  (if s.dispatching then [] else s.current.toList) ++ s.incoming ++ s.pending.toList

/-- The version from which a new watcher sends what it finds in its input channel. -/
def watchRV (rv : ℕ) (initEvents : List (Change O)) : ℕ :=
  match initEvents.getLast? with
  | some e => e.resourceVersion
  | none => rv

/-- The watcher that `Watch` makes for a request. -/
def newWatcher (req : WatchRequest) (initEvents : List (Change O)) : CacheWatcher O where
  filter := filterWithAttrsFunction req.key req.pred
  triggerValue := triggerValue cfg req.pred
  chanSize := chanSize cfg req.pred
  deadline := req.deadline
  input := []
  result := []
  stopped := false
  initEvents := initEvents
  resourceVersion := watchRV req.resourceVersion initEvents
  sending := none
  finished := false
  start :=
    { asked := req.resourceVersion
      version := if req.resourceVersion = 0 then s.watchCache.resourceVersion
        else req.resourceVersion
      epoch := s.epoch
      initial := if req.resourceVersion = 0 then initEvents else []
      stale := if req.resourceVersion = 0 then
          (s.undispatched.filterMap WatchCacheEvent.change?).filter fun c =>
            decide (watchRV req.resourceVersion initEvents < c.resourceVersion)
        else [] }

/-- The request leaves; with an error the client gets a watcher that only has the error. -/
def leave (n : ℕ) : Cacher O := { s with waiting := s.waiting.eraseIdx n }

variable (w : CacheWatcher O)

def addWatcher (allowWatchBookmarks : Bool) (now : ℤ) : Cacher O :=
  { s with
    watchers := s.watchers.addWatcher s.watcherIdx w.triggerValue
    bookmarkWatchers :=
      if allowWatchBookmarks then s.bookmarkWatchers.addWatcher s.watcherIdx w.deadline now
      else s.bookmarkWatchers
    watcherIdx := s.watcherIdx + 1
    heap := Function.update s.heap s.watcherIdx w }

/-- `Watch` after `ready.wait()`. -/
def register (n : ℕ) (req : WatchRequest) (order : IterOrder String) (now : ℤ) : Cacher O :=
  match s.watchCache.getAllEventsSince cfg req.resourceVersion order with
  | .error _ => s.leave n
  | .ok initEvents =>
    (s.leave n).addWatcher (s.newWatcher cfg req initEvents) req.pred.allowWatchBookmarks now

/-! ### The dispatcher -/

/-- Pop an event. Bookmarks of the storage are not dispatched. -/
def pop (rest : List (WatchCacheEvent O)) : Cacher O :=
  match event with
  | .bookmark rv => { s with incoming := rest, lastProcessedResourceVersion := rv }
  | .change c => { s with incoming := rest, current := some (.change c) }

def bookmarkTimer (now : ℤ) : Cacher O :=
  if s.lastProcessedResourceVersion = 0 then
    { s with bookmarkWatchers := (s.bookmarkWatchers.popExpiredWatchers now).2 }
  else { s with current := some (.bookmark s.lastProcessedResourceVersion) }

/-- `startDispatching`. `order` and `values` are the orders of the ranges over the maps of
watchers, `requeued` the times at which watchers are put back for their next bookmark. -/
def startDispatching (order : IterOrder ℕ)
    (values : IterOrder String) (now : ℤ) (requeued : ℕ → ℤ) : Cacher O :=
  let s := { s with dispatching := true, timerFired := false }
  match event with
  | .change c =>
    { s with watchersBuffer := s.watchers.interested order values (triggerValues cfg c) }
  | .bookmark _ =>
    let expired := s.bookmarkWatchers.popExpiredWatchers now
    let watchers := expired.1.filter fun i => !(s.heap i).stopped
    { s with
      watchersBuffer := watchers
      bookmarkWatchers := watchers.foldl
        (fun t i => t.addWatcher i (s.heap i).deadline (requeued i)) expired.2 }

variable (i : ℕ)

/-- Send to the input channel of a watcher. -/
def sendInput (event : WatchCacheEvent O) : Cacher O :=
  s.setWatcher i { s.heap i with input := (s.heap i).input ++ [event] }

/-- Whether the input channel of a watcher has room. -/
def room : Bool := (s.heap i).input.length < (s.heap i).chanSize

/-- `nonblockingAdd` for the next watcher. Who cannot take a bookmark goes without it. -/
def nonblockingAdd (rest : List ℕ) : Cacher O :=
  if s.room i then { s.sendInput i event with watchersBuffer := rest }
  else
    match event with
    | .bookmark _ => { s with watchersBuffer := rest }
    | .change _ => { s with watchersBuffer := rest, blockedWatchers := s.blockedWatchers ++ [i] }

/-- `add` for the next blocked watcher: its channel has room in time, or the watcher is closed. -/
def add (rest : List ℕ) (fires : Bool) : Cacher O :=
  if fires then { s.forget i with blockedWatchers := rest, timerFired := true }
  else { s.sendInput i event with blockedWatchers := rest }

/-- `finishDispatching`, and the dispatcher notes the version of what it popped. -/
def finishDispatching : Cacher O :=
  { s with
    dispatching := false
    heap := stopAll s.heap s.watchersToStop
    watchersToStop := []
    current := none
    lastProcessedResourceVersion :=
      match event with
      | .change c => c.resourceVersion
      | .bookmark _ => s.lastProcessedResourceVersion }

/-! ### A watcher -/

/-- `sendWatchCacheEvent` up to the second `select`: nothing is sent once the watcher is
stopped. -/
def toSend (event : WatchCacheEvent O) : Option (WatchEvent O) :=
  if w.stopped then none else convertToWatchEvent cfg w.filter event

/-- `process` takes the next event: an initial one, or one from the channel if it is newer. -/
def take : Option (CacheWatcher O) :=
  match w.initEvents with
  | c :: initEvents => some { w with initEvents := initEvents, sending := toSend cfg w (.change c) }
  | [] =>
    match w.input with
    | event :: input =>
      some { w with
        input := input
        sending := if w.resourceVersion < event.resourceVersion then toSend cfg w event else none }
    | [] => if w.stopped then some { w with finished := true } else none

/-! ### The machine -/

/-- What the goroutines can do. -/
inductive Label (O : Type) where
  | process (type : ChangeType) (object : O) (now : ℤ)
  | updateResourceVersion (rv : ℕ)
  | push
  | disconnect
  | startCaching
  | listFailed
  | replace (objs : List O) (version : ℕ)
  | watch (req : WatchRequest)
  | register (n : ℕ) (order : IterOrder String) (now : ℤ)
  | pop
  | bookmarkTimer (now : ℤ)
  | startDispatching (order : IterOrder ℕ) (values : IterOrder String) (now : ℤ)
      (requeued : ℕ → ℤ)
  | nonblockingAdd
  | add (fires : Bool)
  | finishDispatching
  | take (i : ℕ)
  | send (i : ℕ)
  | drop (i : ℕ)
  | cancel (i : ℕ)
  | stop (i : ℕ)

def step : Label O → Option (Cacher O)
  | .process type object now =>
    if s.connection = .connected ∧ s.pending.isNone ∧
        s.watchCache.resourceVersion < cfg.objectResourceVersion object then
      some (s.process cfg type object now)
    else none
  | .updateResourceVersion rv =>
    if s.connection = .connected ∧ s.pending.isNone ∧ s.watchCache.resourceVersion ≤ rv then
      some (s.updateResourceVersion rv)
    else none
  | .push => do
    let event ← s.pending
    if s.incoming.length < incomingSize then some (s.push event) else none
  | .disconnect =>
    if s.connection = .connected ∧ s.pending.isNone then some s.disconnect else none
  | .startCaching => if s.connection = .down then some s.startCaching else none
  | .listFailed => if s.connection = .listing then some s.listFailed else none
  | .replace objs version =>
    if s.connection = .listing ∧ 0 < version ∧ s.watchCache.resourceVersion ≤ version then
      some (s.replace cfg objs version)
    else none
  | .watch req => if s.ready then some { s with waiting := s.waiting ++ [req] } else none
  | .register n order now => do
    let req ← s.waiting[n]?
    some (s.register cfg n req order now)
  | .pop =>
    match s.current, s.incoming with
    | none, event :: rest => some (s.pop event rest)
    | _, _ => none
  | .bookmarkTimer now => if s.current.isNone then some (s.bookmarkTimer now) else none
  | .startDispatching order values now requeued => do
    let event ← s.current
    if s.dispatching then none else some (s.startDispatching cfg event order values now requeued)
  | .nonblockingAdd => do
    let event ← s.current
    match s.watchersBuffer with
    | i :: rest => if s.dispatching then some (s.nonblockingAdd event i rest) else none
    | [] => none
  | .add fires => do
    let event ← s.current
    match s.watchersBuffer, s.blockedWatchers with
    | [], i :: rest =>
      -- once the timer has fired a watcher without room is closed at once
      if s.dispatching ∧ (if fires then ¬ (s.timerFired ∧ s.room i) else s.room i) then
        some (s.add event i rest fires)
      else none
    | _, _ => none
  | .finishDispatching => do
    let event ← s.current
    if s.dispatching ∧ s.watchersBuffer = [] ∧ s.blockedWatchers = [] then
      some (s.finishDispatching event)
    else none
  | .take i =>
    if i < s.watcherIdx ∧ (s.heap i).sending.isNone ∧ (s.heap i).finished = false then
      (take cfg (s.heap i)).map (s.setWatcher i)
    else none
  | .send i => do
    let event ← (s.heap i).sending
    if i < s.watcherIdx then
      some (s.setWatcher i
        { s.heap i with result := (s.heap i).result ++ [event], sending := none })
    else none
  | .drop i =>
    if i < s.watcherIdx ∧ (s.heap i).sending.isSome ∧ (s.heap i).stopped then
      some (s.setWatcher i { s.heap i with sending := none })
    else none
  | .cancel i =>
    if i < s.watcherIdx ∧ (s.heap i).sending.isNone ∧ (s.heap i).initEvents = [] then
      some (s.setWatcher i { s.heap i with finished := true })
    else none
  | .stop i => if i < s.watcherIdx then some (s.forget i) else none

end Cacher

def cacher {O : Type} (cfg : Config O) : Machine (Cacher O) (Cacher.Label O) where
  init := newCacher O
  step := Cacher.step cfg

end Kubernetes.Apiserver
