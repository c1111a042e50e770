import Kubernetes.Registry.AllocationBitmap

/-! # Allocators over one stored range

Every API server has an `Etcd` allocator (pkg/registry/core/service/allocator/storage):
a local bitmap, and the version of the stored `RangeAllocation` that the bitmap was
last changed at. A call runs inside `GuaranteedUpdate`: read the object, run the
callback on it, write the result if the object still has the version read, and
start again otherwise.

The callback changes the local bitmap and the remembered version before the write is
known to have succeeded. `World` therefore has the calls under way in it, and any
steps of other servers may come between two steps of one call. The callback works on
the object read and on the server's own state only, so reading the object and running
the callback on it are one step.

Results:

1. `update_spec`: what one run of the callback does to the bitmap it works on;
2. `Inv`: a server whose remembered version is the stored one has the stored bits,
   unless it is about to write; what is about to be written follows from the stored
   bits by the call's effect;
3. `no_double_grant`: the replies of any run are those of one set of offsets, which
   is the stored one.
-/

namespace Kubernetes.Registry

open BitSet AllocationBitmap

/-! ## One allocator -/

/-- The stored object as it is read. No version is the empty string: the object
does not exist. -/
structure RangeAllocation where
  resourceVersion : Option Nat
  range : String
  data : List UInt8
  deriving DecidableEq

/-- The offsets that the stored data mark. -/
def RangeAllocation.offsets (a : RangeAllocation) : Finset Nat := bits (ofBytes a.data)

inductive Error where
  /-- The object has not been created yet. -/
  | notInitialized
  /-- The stored range is not the one of the allocator. -/
  | rangeMismatch
  /-- `errorUnableToAllocate`. -/
  | unableToAllocate
  /-- An error of the storage other than a conflict. -/
  | storage
  deriving DecidableEq

inductive Call where
  | allocate (offset : Nat)
  | allocateNext
  | release (item : Nat)
  deriving DecidableEq

/-- What the three calls return: success or not, the offset, the error. -/
inductive Reply where
  | allocate (ok : Bool) (err : Option Error)
  | allocateNext (offset : Nat) (ok : Bool) (err : Option Error)
  | release (err : Option Error)
  deriving DecidableEq

namespace Call

/-- The function a call passes to `tryUpdate`. `offset` is the variable that
`AllocateNext` sets in it, and `draw` the random source. -/
def fn (draw offset : Nat) (r : AllocationBitmap String) :
    Call → AllocationBitmap String × Nat × Option Error
  | .allocate o =>
    match r.allocate o with
    | (r', true) => (r', offset, none)
    | (r', false) => (r', offset, some .unableToAllocate)
  | .allocateNext =>
    match r.allocateNext draw with
    | (r', some next) => (r', next, none)
    | (r', none) => (r', 0, some .unableToAllocate)
  | .release i => (r.release i, offset, none)

/-- What a call returns when `tryUpdate` has. -/
def reply (offset : Nat) (err : Option Error) : Call → Reply
  | .allocate _ =>
    match err with
    | none => .allocate true none
    | some .unableToAllocate => .allocate false none
    | some e => .allocate false (some e)
  | .allocateNext =>
    match err with
    | none => .allocateNext offset true none
    | some .unableToAllocate => .allocateNext offset false none
    | some e => .allocateNext offset false (some e)
  | .release _ => .release err

end Call

/-- The allocator of one server. -/
structure Etcd where
  alloc : AllocationBitmap String
  /-- The version of the object that the bitmap was last changed at. -/
  last : Option Nat
  deriving DecidableEq

namespace Etcd

/-- The bitmap a call works on: the stored one, if its version is not the remembered
one. -/
def load (e : Etcd) (existing : RangeAllocation) : Except Error (AllocationBitmap String) :=
  if existing.resourceVersion = none then .error .notInitialized
  else if existing.resourceVersion ≠ e.last then
    match e.alloc.restore existing.range existing.data with
    | none => .error .rangeMismatch
    | some r => .ok r
  else .ok e.alloc

/-- The callback of `tryUpdate`: the allocator after it, the variable `offset`, and the
object to write. -/
def update (e : Etcd) (c : Call) (draw offset : Nat) (existing : RangeAllocation) :
    Etcd × Nat × Except Error RangeAllocation :=
  match e.load existing with
  | .error err => (e, offset, .error err)
  | .ok r =>
    match c.fn draw offset r with
    | (r', offset', some err) => ({ e with alloc := r' }, offset', .error err)
    | (r', offset', none) =>
      (⟨r', existing.resourceVersion⟩, offset',
        .ok { existing with range := r'.snapshot.1, data := r'.snapshot.2 })

end Etcd

/-! ## The servers -/

/-- Where a server is in its call. `offset` is the variable of `AllocateNext`. -/
inductive Phase where
  | idle
  /-- About to read the object and to run the callback on it. -/
  | reading (c : Call) (offset : Nat)
  /-- About to write `new`, which carries the version that was read. -/
  | writing (c : Call) (offset : Nat) (new : RangeAllocation)
  deriving DecidableEq

structure Server where
  etcd : Etcd
  phase : Phase
  deriving DecidableEq

/-- What a server can do next. -/
inductive Action where
  | call (c : Call)
  /-- Read and run the callback. `skip`: an object that did not change is not written. -/
  | attempt (draw : Nat) (skip : Bool)
  /-- The transaction: a write under a new version, or a conflict. -/
  | write (revision : Nat)
  /-- The read fails. -/
  | readError
  /-- The write fails, and not because of a conflict. -/
  | writeError
  deriving DecidableEq

/-- What an action leads to: the server, the stored object, and the reply if the call
returns. -/
structure Outcome where
  server : Server
  store : RangeAllocation
  returned : Option (Call × Reply)

namespace Server

variable (store : RangeAllocation)

def next (e : Etcd) (phase : Phase) : Outcome := ⟨⟨e, phase⟩, store, none⟩

def finish (e : Etcd) (c : Call) (offset : Nat) (err : Option Error) : Outcome :=
  ⟨⟨e, .idle⟩, store, some (c, c.reply offset err)⟩

def step (server : Server) : Action → Option Outcome
  | .call c =>
    match server.phase with
    | .idle => some (next store server.etcd (.reading c 0))
    | _ => none
  | .attempt draw skip =>
    match server.phase with
    | .reading c offset =>
      match server.etcd.update c draw offset store with
      | (e, offset', .error err) => some (finish store e c offset' (some err))
      | (e, offset', .ok new) =>
        if skip then
          if new = store then some (finish store e c offset' none) else none
        else some (next store e (.writing c offset' new))
    | _ => none
  | .write revision =>
    match server.phase with
    | .writing c offset new =>
      if new.resourceVersion = store.resourceVersion then
        -- versions are never used again
        if store.resourceVersion.all (· < revision) then
          some (finish { new with resourceVersion := some revision } server.etcd c offset none)
        else none
      else some (next store server.etcd (.reading c offset))
    | _ => none
  | .readError =>
    match server.phase with
    | .reading c offset => some (finish store server.etcd c offset (some .storage))
    | _ => none
  | .writeError =>
    match server.phase with
    | .writing c offset _ => some (finish store server.etcd c offset (some .storage))
    | _ => none

end Server

/-- The stored object, the servers, and the calls that have returned, in the order in
which they took effect. -/
structure World (ι : Type) where
  store : RangeAllocation
  servers : ι → Server
  returned : List (ι × Call × Reply)

variable {ι : Type}

namespace World

variable [DecidableEq ι]

/-- The world after an action of `s`. -/
def apply (w : World ι) (s : ι) (out : Outcome) : World ι where
  store := out.store
  servers i := if i = s then out.server else w.servers i
  returned := w.returned ++ (out.returned.map (s, ·)).toList

def step (w : World ι) (e : ι × Action) : Option (World ι) :=
  ((w.servers e.1).step w.store e.2).map (w.apply e.1)

end World

/-- What a deployment fixes: the stored object at the start, and the range of each
server's allocator. -/
structure Deployment (ι : Type) where
  stored : RangeAllocation
  alloc : ι → AllocationBitmap String

/-- The servers start with no remembered version. -/
def machine {ι : Type} [DecidableEq ι] (d : Deployment ι) : Machine (World ι) (ι × Action) where
  init := ⟨d.stored, fun i => ⟨⟨d.alloc i, none⟩, .idle⟩, []⟩
  step := World.step

/-! ## The atomic allocator

What the servers are to look like from outside: one set of offsets, on which every call
takes effect at once. -/

/-- The offset that a call is granted. -/
def granted : Call × Reply → Option Nat
  | (.allocate o, .allocate true _) => some o
  | (.allocateNext, .allocateNext o true _) => some o
  | _ => none

/-- The offset that a call frees. -/
def released : Call × Reply → Option Nat
  | (.release i, .release none) => some i
  | _ => none

/-- The offsets held after a call that returned with this reply. -/
def effect (held : Finset Nat) (p : Call × Reply) : Finset Nat :=
  match granted p, released p with
  | some o, _ => insert o held
  | none, some i => held.erase i
  | none, none => held

/-- The offsets granted and not yet released. -/
def heldAfter (held : Finset Nat) (ps : List (ι × Call × Reply)) : Finset Nat :=
  ps.foldl (fun held p => effect held p.2) held

/-- Only free offsets are granted. -/
def Legal (held : Finset Nat) : List (ι × Call × Reply) → Prop
  | [] => True
  | p :: ps => (∀ o, granted p.2 = some o → o ∉ held) ∧ Legal (effect held p.2) ps

lemma heldAfter_snoc (held : Finset Nat) (ps : List (ι × Call × Reply))
    (p : ι × Call × Reply) : heldAfter held (ps ++ [p]) = effect (heldAfter held ps) p.2 := by
  rw [heldAfter, List.foldl_append]
  rfl

variable {held : Finset Nat} {ps : List (ι × Call × Reply)}

lemma legal_append {qs : List (ι × Call × Reply)} :
    Legal held (ps ++ qs) ↔ Legal held ps ∧ Legal (heldAfter held ps) qs := by
  induction ps generalizing held with
  | nil => exact (and_iff_right trivial).symm
  | cons p ps ih =>
    rw [List.cons_append, Legal, Legal, ih, and_assoc]
    rfl

lemma legal_snoc {p : ι × Call × Reply} :
    Legal held (ps ++ [p]) ↔
      Legal held ps ∧ ∀ o, granted p.2 = some o → o ∉ heldAfter held ps := by
  rw [legal_append, Legal, Legal, and_true]

/-- What is held stays so until it is released. -/
lemma mem_heldAfter {o : Nat} (h : o ∈ held) (hps : ∀ p ∈ ps, released p.2 ≠ some o) :
    o ∈ heldAfter held ps := by
  induction ps generalizing held with
  | nil => exact h
  | cons p ps ih =>
    refine ih ?_ (List.forall_mem_cons.1 hps).2
    have hp : released p.2 ≠ some o := hps p List.mem_cons_self
    show o ∈ effect held p.2
    unfold effect
    split
    · exact Finset.mem_insert_of_mem h
    · rename_i i _ hi
      rw [hi] at hp
      exact Finset.mem_erase.2 ⟨fun heq => hp (congrArg some heq.symm), h⟩
    · exact h

/-- In a legal history there is a release between two grants of one offset. -/
lemma Legal.released_between {pre mid post : List (ι × Call × Reply)} {a b : ι × Call × Reply}
    {o : Nat} (h : Legal held (pre ++ a :: (mid ++ b :: post))) (ha : granted a.2 = some o)
    (hb : granted b.2 = some o) :
    ∃ p ∈ mid, released p.2 = some o := by
  by_contra hnone
  push Not at hnone
  rw [legal_append] at h
  obtain ⟨-, -, hrest⟩ := h
  rw [legal_append] at hrest
  -- `o` is held from the first grant on, so the second is not legal
  refine hrest.2.1 o hb (mem_heldAfter ?_ hnone)
  unfold effect
  rw [ha]
  exact Finset.mem_insert_self _ _

lemma granted_reply_error (c : Call) (offset : Nat) (err : Error) :
    granted (c, c.reply offset (some err)) = none := by
  cases c <;> cases err <;> rfl

lemma effect_reply_error (held : Finset Nat) (c : Call) (offset : Nat) (err : Error) :
    effect held (c, c.reply offset (some err)) = held := by
  cases c <;> cases err <;> rfl

/-! ## One run of the callback -/

variable {draw offset offset' : Nat} {c : Call}

namespace Call

/-- A function that fails changes nothing; one that succeeds has its effect, and grants
a free offset only. -/
lemma fn_spec {r r' : AllocationBitmap String}
    {err : Option Error} (h : c.fn draw offset r = (r', offset', err)) :
    (err = some .unableToAllocate ∧ r' = r) ∨
      (err = none ∧ r'.config = r.config ∧
        r'.offsets = effect r.offsets (c, c.reply offset' none) ∧
        ∀ o, granted (c, c.reply offset' none) = some o → o ∉ r.offsets) := by
  cases c with
  | allocate o =>
    by_cases ho : o ∈ r.offsets
    · simp only [fn, allocate_of_mem ho] at h
      cases h
      exact .inl ⟨rfl, rfl⟩
    · simp only [fn, allocate_of_notMem ho] at h
      cases h
      refine .inr ⟨rfl, rfl, offsets_mark _ _ _, fun o' ho' => ?_⟩
      cases ho'
      exact ho
  | allocateNext =>
    rcases r.allocateNext_cases draw with ⟨-, heq⟩ | ⟨-, next, hbit, -, hfree, heq⟩
    · simp only [fn, heq] at h
      cases h
      exact .inl ⟨rfl, rfl⟩
    · simp only [fn, heq] at h
      cases h
      refine .inr ⟨rfl, rfl, offsets_mark _ _ _, fun o' ho' => ?_⟩
      cases ho'
      exact hfree
  | release i =>
    cases h
    exact .inr ⟨rfl, config_release _ _, offsets_release _ _,
      fun o ho => by cases ho⟩

end Call

namespace Etcd

/-- `e` has the stored bits if it remembers the stored version. -/
def Synced (e : Etcd) (a : RangeAllocation) : Prop :=
  a.resourceVersion ≠ none → a.resourceVersion = e.last → e.alloc.offsets = a.offsets

variable {e : Etcd} {a : RangeAllocation}

lemma load_spec {r : AllocationBitmap String} (h : e.load a = .ok r) :
    a.resourceVersion ≠ none ∧ r.config = e.alloc.config ∧
      (a.resourceVersion = e.last → r = e.alloc) ∧
      (a.resourceVersion ≠ e.last → r.offsets = a.offsets) := by
  unfold load at h
  split_ifs at h with hnone hlast
  · refine ⟨hnone, ?_⟩
    cases hr : e.alloc.restore a.range a.data with
    | none =>
      rw [hr] at h
      cases h
    | some r' =>
      rw [hr] at h
      cases h
      obtain ⟨-, hconfig, hoffs⟩ := restore_eq_some hr
      exact ⟨hconfig, fun heq => absurd heq hlast, fun _ => hoffs⟩
  · cases h
    exact ⟨hnone, rfl, fun _ => rfl, fun hne => absurd hne hlast⟩

lemma Synced.load {r : AllocationBitmap String} (he : e.Synced a) (h : e.load a = .ok r) :
    r.offsets = a.offsets := by
  obtain ⟨hnone, -, hsame, hnew⟩ := load_spec h
  by_cases hlast : a.resourceVersion = e.last
  · rw [hsame hlast]
    exact he hnone hlast
  · exact hnew hlast

variable {res : Except Error RangeAllocation}

/-- The three ways in which a run of the callback can end. -/
lemma update_cases {e' : Etcd}
    (h : e.update c draw offset a = (e', offset', res)) :
    (∃ err, e.load a = .error err ∧ e' = e ∧ offset' = offset ∧ res = .error err) ∨
      ∃ r, e.load a = .ok r ∧
        ((c.fn draw offset r = (r, offset', some .unableToAllocate) ∧ e' = ⟨r, e.last⟩ ∧
            res = .error .unableToAllocate) ∨
          ∃ r', c.fn draw offset r = (r', offset', none) ∧ e' = ⟨r', a.resourceVersion⟩ ∧
            res = .ok ⟨a.resourceVersion, r'.rangeSpec, toBytes r'.allocated⟩) := by
  unfold update at h
  cases hr : e.load a with
  | error err =>
    rw [hr] at h
    cases h
    exact .inl ⟨err, rfl, rfl, rfl, rfl⟩
  | ok r =>
    rw [hr] at h
    refine .inr ⟨r, rfl, ?_⟩
    obtain ⟨⟨r', off, err⟩, hfn⟩ : ∃ x, c.fn draw offset r = x := ⟨_, rfl⟩
    rcases Call.fn_spec hfn with ⟨rfl, rfl⟩ | ⟨rfl, -⟩
    · simp only [hfn] at h
      cases h
      exact .inl ⟨hfn, rfl, rfl⟩
    · simp only [hfn] at h
      cases h
      exact .inr ⟨r', hfn, rfl, rfl⟩

/-- An update fails, or has the effect of its call on the stored offsets. -/
theorem update_spec {e' : Etcd}
    (he : e.Synced a)
    (h : e.update c draw offset a = (e', offset', res)) :
    (∃ err, res = .error err ∧ e'.Synced a) ∨
      ∃ new, res = .ok new ∧ e'.alloc.offsets = new.offsets ∧
        new.offsets = effect a.offsets (c, c.reply offset' none) ∧
        ∀ o, granted (c, c.reply offset' none) = some o → o ∉ a.offsets := by
  rcases update_cases h with ⟨err, -, rfl, -, rfl⟩ | ⟨r, hr, ⟨-, rfl, rfl⟩ | ⟨r', hfn, rfl, rfl⟩⟩
  · exact .inl ⟨err, rfl, he⟩
  · exact .inl ⟨_, rfl, fun _ _ => he.load hr⟩
  rcases Call.fn_spec hfn with ⟨hnone, -⟩ | ⟨-, -, heffect, hfree⟩
  · cases hnone
  have hdata : bits (ofBytes (toBytes r'.allocated)) = r'.offsets :=
    congrArg bits (ofBytes_toBytes _)
  rw [he.load hr] at heffect hfree
  exact .inr ⟨_, rfl, hdata.symm, hdata.trans heffect, hfree⟩

end Etcd

/-! ## Steps -/

variable {store store' : RangeAllocation} {server : Server} {out : Outcome}

namespace Server

/-- The steps of a server, one case for each way in which an action can end. -/
inductive Step (store : RangeAllocation) (server : Server) : Action → Outcome → Prop where
  | call {c : Call} : server.phase = .idle →
      Step store server (.call c) (next store server.etcd (.reading c 0))
  | fail {c : Call} {draw offset offset' : Nat} {skip : Bool} {e : Etcd} {err : Error} :
      server.phase = .reading c offset →
      server.etcd.update c draw offset store = (e, offset', .error err) →
      Step store server (.attempt draw skip) (finish store e c offset' (some err))
  | unchanged {c : Call} {draw offset offset' : Nat} {e : Etcd} :
      server.phase = .reading c offset →
      server.etcd.update c draw offset store = (e, offset', .ok store) →
      Step store server (.attempt draw true) (finish store e c offset' none)
  | attempt {c : Call} {draw offset offset' : Nat} {e : Etcd} {new : RangeAllocation} :
      server.phase = .reading c offset →
      server.etcd.update c draw offset store = (e, offset', .ok new) →
      Step store server (.attempt draw false) (next store e (.writing c offset' new))
  | write {c : Call} {offset revision : Nat} {new : RangeAllocation} :
      server.phase = .writing c offset new → new.resourceVersion = store.resourceVersion →
      store.resourceVersion.all (· < revision) = true →
      Step store server (.write revision)
        (finish { new with resourceVersion := some revision } server.etcd c offset none)
  | conflict {c : Call} {offset revision : Nat} {new : RangeAllocation} :
      server.phase = .writing c offset new → new.resourceVersion ≠ store.resourceVersion →
      Step store server (.write revision) (next store server.etcd (.reading c offset))
  | readError {c : Call} {offset : Nat} : server.phase = .reading c offset →
      Step store server .readError (finish store server.etcd c offset (some .storage))
  | writeError {c : Call} {offset : Nat} {new : RangeAllocation} :
      server.phase = .writing c offset new →
      Step store server .writeError (finish store server.etcd c offset (some .storage))

lemma step_iff {a : Action} : server.step store a = some out ↔ Step store server a out := by
  constructor
  · fun_cases step store server a
    all_goals
      intro h
      cases h
    · exact .call ‹_›
    · exact .fail ‹_› ‹_›
    · exact .unchanged ‹_› ‹_›
    · rename_i hskip
      rw [Bool.eq_false_of_not_eq_true hskip]
      exact .attempt ‹_› ‹_›
    · exact .write ‹_› ‹_› ‹_›
    · exact .conflict ‹_› ‹_›
    · exact .readError ‹_›
    · exact .writeError ‹_›
  · rintro (hphase | ⟨hphase, hupdate⟩ | ⟨hphase, hupdate⟩ | ⟨hphase, hupdate⟩ |
      ⟨hphase, hver, hrev⟩ | ⟨hphase, hver⟩ | hphase | hphase)
    all_goals simp [step, *]

/-! ### Remembered versions -/

/-- Not writing. -/
def Quiet (server : Server) : Prop := ∀ c offset new, server.phase ≠ .writing c offset new

lemma Quiet.of_phase {phase : Phase} (h : server.phase = phase)
    (hne : ∀ c offset new, phase ≠ .writing c offset new) : server.Quiet := by
  intro c offset new heq
  exact hne c offset new (h.symm.trans heq)

/-- The version a server remembers is not one of the future, and it is the version read for
a write that is under way. -/
structure Recent (store : RangeAllocation) (server : Server) : Prop where
  last_le : ∀ v, server.etcd.last = some v → ∃ v', store.resourceVersion = some v' ∧ v ≤ v'
  read : ∀ c offset new, server.phase = .writing c offset new →
    new.resourceVersion = server.etcd.last

/-- `store'` is `store`, or it was written later. -/
inductive Later (store : RangeAllocation) : RangeAllocation → Prop where
  | same : Later store store
  | written {store' : RangeAllocation} {revision : Nat} :
      store.resourceVersion.all (· < revision) = true →
      store'.resourceVersion = some revision → Later store store'

/-- No server remembers a version that is new. -/
lemma Recent.lt {revision : Nat} (h : server.Recent store)
    (hold : store.resourceVersion.all (· < revision) = true) :
    ∀ v, server.etcd.last = some v → v < revision := by
  intro v hv
  obtain ⟨v', hv', hle⟩ := h.last_le v hv
  rw [hv', Option.all_some, decide_eq_true_eq] at hold
  omega

lemma Recent.later (h : server.Recent store)
    (hlater : Later store store') : server.Recent store' := by
  cases hlater with
  | same => exact h
  | written hold hnew =>
    refine ⟨fun v hv => ?_, h.read⟩
    exact ⟨_, hnew, (h.lt hold v hv).le⟩

lemma Recent.quiet (h : server.Recent store) {phase : Phase}
    (hphase : ∀ c offset new, phase ≠ .writing c offset new) :
    (⟨server.etcd, phase⟩ : Server).Recent store :=
  ⟨h.last_le, fun c offset new heq => absurd heq (hphase c offset new)⟩

/-- The stored object is only ever replaced under a new version. -/
lemma Step.later {a : Action} (hstep : Step store server a out) : Later store out.store := by
  cases hstep with
  | write _ _ hrev => exact .written hrev rfl
  | _ => exact .same

lemma Recent.step {a : Action} (h : server.Recent store) (hstep : Step store server a out) :
    out.server.Recent out.store := by
  have hlater := h.later hstep.later
  -- after an attempt the version remembered is the old one or the stored one
  have hlast : ∀ {c draw offset offset' e res},
      server.etcd.update c draw offset store = (e, offset', res) →
      ∀ v, e.last = some v → ∃ v', store.resourceVersion = some v' ∧ v ≤ v' := by
    intro c draw offset offset' e res hupdate v hv
    rcases Etcd.update_cases hupdate with ⟨_, -, rfl, -⟩ | ⟨r, -, ⟨-, rfl, -⟩ | ⟨r', -, rfl, -⟩⟩
    · exact h.last_le v hv
    · exact h.last_le v hv
    · exact ⟨v, hv, le_refl v⟩
  cases hstep with
  | fail _ hupdate => exact ⟨hlast hupdate, nofun⟩
  | unchanged _ hupdate => exact ⟨hlast hupdate, nofun⟩
  | attempt _ hupdate =>
    refine ⟨hlast hupdate, fun c' offset'' new' heq => ?_⟩
    cases heq
    rcases Etcd.update_cases hupdate with
      ⟨_, -, -, -, hres⟩ | ⟨r, -, ⟨-, -, hres⟩ | ⟨r', -, rfl, hres⟩⟩
    · cases hres
    · cases hres
    · cases hres
      rfl
  | write => exact hlater.quiet nofun
  | _ => exact h.quiet nofun

end Server

namespace World

variable [DecidableEq ι] {w w' : World ι}

lemma step_cases {e : ι × Action} (h : w.step e = some w') :
    ∃ out, (w.servers e.1).Step w.store e.2 out ∧ w' = w.apply e.1 out := by
  obtain ⟨out, hout, heq⟩ := Option.map_eq_some_iff.1 h
  exact ⟨out, Server.step_iff.1 hout, heq.symm⟩

lemma step_of_step {e : ι × Action} (h : (w.servers e.1).Step w.store e.2 out) :
    w.step e = some (w.apply e.1 out) := by
  rw [World.step, Server.step_iff.2 h]
  rfl

/-- What holds of all servers is kept if the one that moves has it afterwards, and the
others keep it when the stored object changes. -/
lemma forall_apply {P P' : Server → Prop} (h : ∀ i, P (w.servers i)) {s : ι}
    (hs : P' out.server) (hothers : ∀ server, P server → P' server) (i : ι) :
    P' ((w.apply s out).servers i) := by
  show P' (if i = s then out.server else w.servers i)
  split
  · exact hs
  · exact hothers _ (h i)

lemma recent_step {e : ι × Action} (h : ∀ i, (w.servers i).Recent w.store)
    (hstep : w.step e = some w') : ∀ i, (w'.servers i).Recent w'.store := by
  obtain ⟨out, hout, rfl⟩ := step_cases hstep
  exact forall_apply h ((h e.1).step hout) fun _ hi => hi.later hout.later

end World

lemma recent_init [DecidableEq ι] (d : Deployment ι) (i : ι) :
    ((machine d).init.servers i).Recent (machine d).init.store := by
  constructor
  · intro v h
    cases h
  · intro c offset new h
    cases h

/-! ## Any number of servers -/

/-- What holds of a server while the stored object is `store`. -/
structure Server.Inv (store : RangeAllocation) (server : Server) : Prop where
  recent : server.Recent store
  synced : server.Quiet → server.etcd.Synced store
  /-- A write that will not be a conflict has the effect of the call. -/
  pending : ∀ c offset new, server.phase = .writing c offset new →
    new.resourceVersion = store.resourceVersion →
      new.offsets = effect store.offsets (c, c.reply offset none) ∧
      ∀ o, granted (c, c.reply offset none) = some o → o ∉ store.offsets

namespace Server

/-- Under a new version there is nothing to keep: no server remembers it. -/
lemma Recent.inv {revision : Nat} (h : server.Recent store)
    (hold : store.resourceVersion.all (· < revision) = true)
    (hnew : store'.resourceVersion = some revision) : server.Inv store' := by
  constructor
  case recent => exact h.later (.written hold hnew)
  case synced =>
    intro _ _ hcur
    rw [hnew] at hcur
    exact absurd (h.lt hold revision hcur.symm) (lt_irrefl _)
  case pending =>
    intro c offset new hphase hcur
    rw [h.read c offset new hphase, hnew] at hcur
    exact absurd (h.lt hold revision hcur) (lt_irrefl _)

lemma Inv.later (h : server.Inv store) (hlater : Later store store') : server.Inv store' := by
  cases hlater with
  | same => exact h
  | written hold hnew => exact h.recent.inv hold hnew

/-- What an action does to the stored set: nothing, or what its reply says. -/
structure Takes (store : RangeAllocation) (out : Outcome) : Prop where
  stored : out.store.offsets = (out.returned.elim store.offsets fun p => effect store.offsets p)
  legal : ∀ p ∈ out.returned, ∀ o, granted p = some o → o ∉ store.offsets

lemma takes_next (e : Etcd) (phase : Phase) : Takes store (next store e phase) :=
  ⟨rfl, fun _ h => by cases h⟩

lemma takes_error (e : Etcd) (c : Call) (offset : Nat) (err : Error) :
    Takes store (finish store e c offset (some err)) := by
  refine ⟨(effect_reply_error _ c offset err).symm, fun p hp o ho => ?_⟩
  cases hp
  rw [granted_reply_error] at ho
  cases ho

lemma takes_effect {e : Etcd}
    (heffect : store'.offsets = effect store.offsets (c, c.reply offset none))
    (hfree : ∀ o, granted (c, c.reply offset none) = some o → o ∉ store.offsets) :
    Takes store (finish store' e c offset none) := by
  refine ⟨heffect, fun p hp o ho => ?_⟩
  cases hp
  exact hfree o ho

/-- Every action but a failed write keeps the invariant. -/
lemma Inv.step {a : Action} (h : server.Inv store) (ha : a ≠ .writeError)
    (hstep : Step store server a out) : out.server.Inv out.store ∧ Takes store out := by
  have hrecent := h.recent.step hstep
  cases hstep with
  | call hphase =>
    have hsynced := h.synced (.of_phase hphase nofun)
    exact ⟨⟨hrecent, fun _ => hsynced, nofun⟩, takes_next _ _⟩
  | fail hphase hupdate =>
    rcases Etcd.update_spec (h.synced (.of_phase hphase nofun)) hupdate with
      ⟨err, -, hsynced⟩ | ⟨new, hres, -⟩
    · exact ⟨⟨hrecent, fun _ => hsynced, nofun⟩, takes_error _ _ _ _⟩
    · cases hres
  | unchanged hphase hupdate =>
    rcases Etcd.update_spec (h.synced (.of_phase hphase nofun)) hupdate with
      ⟨err, hres, -⟩ | ⟨new, hres, hbits, heffect, hfree⟩
    · cases hres
    · cases hres
      exact ⟨⟨hrecent, fun _ _ _ => hbits, nofun⟩, takes_effect heffect hfree⟩
  | attempt hphase hupdate =>
    rcases Etcd.update_spec (h.synced (.of_phase hphase nofun)) hupdate with
      ⟨err, hres, -⟩ | ⟨new, hres, hbits, heffect, hfree⟩
    · cases hres
    · cases hres
      refine ⟨⟨hrecent, fun hno => absurd rfl (hno _ _ _), ?_⟩, takes_next _ _⟩
      intro c' offset'' new' heq _
      cases heq
      exact ⟨heffect, hfree⟩
  | write hphase hver hrev =>
    obtain ⟨hoffs, hfree⟩ := h.pending _ _ _ hphase hver
    refine ⟨?_, takes_effect hoffs hfree⟩
    -- the writer remembers the version before its write
    exact (h.recent.quiet fun _ _ _ heq => by cases heq).inv hrev rfl
  | conflict hphase hver =>
    -- another server has written since the read
    refine ⟨⟨hrecent, fun _ _ hcur => ?_, nofun⟩, takes_next _ _⟩
    exact absurd ((h.recent.read _ _ _ hphase).trans hcur.symm) hver
  | readError hphase =>
    have hsynced := h.synced (.of_phase hphase nofun)
    exact ⟨⟨hrecent, fun _ => hsynced, nofun⟩, takes_error _ _ _ _⟩
  | writeError => exact absurd rfl ha

end Server

/-- The replies so far are those of an atomic allocator, and the stored bits are its
set. -/
structure World.Inv {ι : Type} (held : Finset Nat) (w : World ι) : Prop where
  stored : w.store.offsets = heldAfter held w.returned
  legal : Legal held w.returned
  server : ∀ s, (w.servers s).Inv w.store

variable [DecidableEq ι]

lemma World.Inv.step {w w' : World ι} (h : w.Inv held) {e : ι × Action}
    (he : e.2 ≠ .writeError) (hstep : w.step e = some w') : w'.Inv held := by
  obtain ⟨out, hout, rfl⟩ := World.step_cases hstep
  obtain ⟨hserver, htakes⟩ := (h.server e.1).step he hout
  have hservers : ∀ i, ((w.apply e.1 out).servers i).Inv out.store :=
    World.forall_apply h.server hserver fun _ hi => hi.later hout.later
  have hstored := htakes.stored
  rw [h.stored] at hstored
  cases hret : out.returned with
  | none =>
    rw [hret] at hstored
    have hsame : (w.apply e.1 out).returned = w.returned := by simp [World.apply, hret]
    exact ⟨by rw [hsame]; exact hstored, by rw [hsame]; exact h.legal, hservers⟩
  | some p =>
    rw [hret] at hstored
    have hsnoc : (w.apply e.1 out).returned = w.returned ++ [(e.1, p)] := by
      simp [World.apply, hret]
    refine ⟨?_, ?_, hservers⟩
    · rw [hsnoc, heldAfter_snoc]
      exact hstored
    · rw [hsnoc, legal_snoc, ← h.stored]
      exact ⟨h.legal, htakes.legal p hret⟩

/-- Writes fail because of conflicts only. -/
def ConflictsOnly (_ : World ι) (e : ι × Action) : Prop := e.2 ≠ .writeError

instance (w : World ι) (e : ι × Action) : Decidable (ConflictsOnly w e) :=
  inferInstanceAs (Decidable (e.2 ≠ .writeError))

lemma reach_inv {d : Deployment ι} {tr : List (ι × Action)} {w : World ι}
    (h : (machine d).ReachWhen ConflictsOnly tr w) : w.Inv d.stored.offsets := by
  refine h.invariant (World.Inv d.stored.offsets) ?_ fun w e w' hw he hstep => hw.step he hstep
  refine ⟨rfl, trivial, fun s => ⟨recent_init d s, fun _ hsome hnone => ?_, ?_⟩⟩
  · exact absurd hnone hsome
  · intro c offset new heq
    cases heq

/-- In any interleaving of the servers' calls, an offset that a call was granted is granted
again only after a release of it, and the stored bits are the offsets that are
granted and not released. -/
theorem no_double_grant (d : Deployment ι) {tr : List (ι × Action)} {w : World ι}
    (h : (machine d).ReachWhen ConflictsOnly tr w) :
    (∀ pre a mid b post o, w.returned = pre ++ a :: (mid ++ b :: post) →
      granted a.2 = some o → granted b.2 = some o → ∃ p ∈ mid, released p.2 = some o) ∧
    w.store.offsets = heldAfter d.stored.offsets w.returned := by
  have hinv := reach_inv h
  refine ⟨fun pre a mid b post o hret ha hb => ?_, hinv.stored⟩
  have hlegal := hinv.legal
  rw [hret] at hlegal
  exact hlegal.released_between ha hb

/-- Two servers, one for each strategy. -/
def twoServers : Deployment Bool where
  stored := ⟨some 1, "range", []⟩
  alloc s := .empty (if s then .randomScan else .contiguousScan) 4 "range"

/-- Both servers want offset 0. The second is late and gets another one; 0 is granted
again when it has been released. -/
def conflictRun : List (Bool × Action) :=
  [(true, .call (.allocate 0)), (false, .call .allocateNext),
    (true, .attempt 0 false), (false, .attempt 0 false),
    (true, .write 2), (false, .write 3), (false, .attempt 0 false), (false, .write 3),
    (true, .call (.release 0)), (true, .attempt 0 false), (true, .write 5),
    (false, .call (.allocate 0)), (false, .attempt 0 false), (false, .write 6)]

theorem no_double_grant_conflict :
    ∃ w, (machine twoServers).ReachWhen ConflictsOnly conflictRun w ∧
      w.returned =
        [(true, .allocate 0, .allocate true none),
          (false, .allocateNext, .allocateNext 1 true none),
          (true, .release 0, .release none), (false, .allocate 0, .allocate true none)] ∧
      (∀ pre a mid b post o, w.returned = pre ++ a :: (mid ++ b :: post) →
        granted a.2 = some o → granted b.2 = some o → ∃ p ∈ mid, released p.2 = some o) ∧
      w.store.offsets = heldAfter twoServers.stored.offsets w.returned := by
  obtain ⟨w, hw, hret⟩ := (machine twoServers).exists_reachWhen ConflictsOnly
    World.returned conflictRun
    [(true, .allocate 0, .allocate true none), (false, .allocateNext, .allocateNext 1 true none),
      (true, .release 0, .release none), (false, .allocate 0, .allocate true none)]
    (by decide +kernel)
  exact ⟨w, hw, hret, no_double_grant twoServers hw⟩

end Kubernetes.Registry
