import Kubernetes.ByteString
import Kubernetes.Decimal
import Kubernetes.Mvcc

/-! # Updates of an object in etcd

A model of `GuaranteedUpdate` of `storage/etcd3/store.go` and of what it calls. The call reads the
key and tries to replace what it has read by a transaction that compares the modification revision;
it goes on until that succeeds. It may start with an object from a cache instead of a read, and it
does not write if the result is what is stored.

The machine interleaves one call with the writes of others. A step of the call goes from one request
to etcd to the next; what a request returns besides the content of the key, failures and whether the
transformer calls the data stale, is part of the label. `moments` is a history variable: the
contents of the key before and after each step since the call has started.

A call that succeeds should have done so at one of these moments. It does not always
(`success_without_recheck`): the read that confirms a result that need not be written is compared
with the bytes of the cached object only, and these may be the bytes of another revision.
`guaranteedUpdate_atomic` says that it does in every run in which this does not happen.
-/

namespace Kubernetes.Apiserver.EtcdStore

open ByteString Decimal

/-! ## A call -/

/-- `runtime.Codec`: what was encoded can be decoded, and is not empty. Objects are without their
resource version, which is not stored. -/
structure Codec (Obj : Type) where
  encode : Obj → Option Bytes
  decode : Bytes → Option Obj
  decode_encode : ∀ {obj data}, encode obj = some data → decode data = some obj
  encode_ne_nil : ∀ {obj data}, encode obj = some data → data ≠ []

/-- `storage.Preconditions`. -/
structure Preconditions where
  uid : Option Str
  resourceVersion : Option Str

/-- What a precondition asks for, and what it finds. -/
inductive PreconditionError where
  | uid (precondition objectMeta : Str)
  | resourceVersion (precondition objectMeta : Str)
deriving DecidableEq

/-- The arguments of a call, with the codec and what is read from objects. `tryUpdate` gets the
object and its resource version, and returns an object and a time to live. -/
structure Call (K Obj ε : Type) where
  key : K
  ignoreNotFound : Bool
  preconditions : Option Preconditions
  tryUpdate : Obj → ℕ → Except ε (Obj × Option ℕ)
  codec : Codec Obj
  zero : Obj
  uidOf : Obj → Str

structure ObjState (Obj : Type) where
  obj : Obj
  rev : ℕ
  data : Bytes
  stale : Bool

inductive Result (Obj ε : Type) where
  | ok (out : Obj) (rev : ℕ)
  | preconditionFailed (err : PreconditionError)
  | updateFailed (err : ε)
  | keyNotFound
  | otherError
deriving DecidableEq

/-- What the call does with the state it reads: it starts its loop again, or compares the state with
a result that it may not have to write. -/
inductive AfterRead (Obj : Type) where
  | loop
  | confirm (origState : ObjState Obj) (ret : Obj) (data : Bytes)

/-- Where the call is: the next request to etcd, or its result. -/
inductive Pc (Obj ε : Type) where
  | idle
  | reading (after : AfterRead Obj)
  | writing (origState : ObjState Obj) (ret : Obj) (data : Bytes)
  | done (result : Result Obj ε)

/-- The resource version of an object, as text. -/
def versionString (rev : ℕ) : Str := if rev = 0 then [] else itoa rev

namespace Call

variable {K Obj ε : Type} (c : Call K Obj ε)

/-- `Preconditions.Check`. -/
def check (obj : Obj) (rev : ℕ) : Option PreconditionError :=
  match c.preconditions with
  | none => none
  | some p =>
    match p.uid.filter (· ≠ c.uidOf obj), p.resourceVersion.filter (· ≠ versionString rev) with
    | some uid, _ => some (.uid uid (c.uidOf obj))
    | none, some resourceVersion => some (.resourceVersion resourceVersion (versionString rev))
    | none, none => none

/-- `getState`, for the content of the key. -/
def getState (stored : Option (Bytes × ℕ)) (stale : Bool) : Except (Result Obj ε) (ObjState Obj) :=
  match stored with
  | none => if c.ignoreNotFound then .ok ⟨c.zero, 0, [], false⟩ else .error .keyNotFound
  | some (data, rev) =>
    match c.codec.decode data with
    | none => .error .otherError
    | some obj => .ok ⟨obj, rev, data, stale⟩

/-- `decode`, for what is returned. -/
def finish (data : Bytes) (rev : ℕ) : Result Obj ε :=
  match c.codec.decode data with
  | none => .otherError
  | some out => .ok out rev

/-- The loop of `GuaranteedUpdate` up to the next request. -/
def loop (origState : ObjState Obj) (origStateIsCurrent : Bool) : Pc Obj ε :=
  match c.check origState.obj origState.rev with
  | some err => if origStateIsCurrent then .done (.preconditionFailed err) else .reading .loop
  | none =>
    match c.tryUpdate origState.obj origState.rev with
    | .error err => if origStateIsCurrent then .done (.updateFailed err) else .reading .loop
    | .ok (ret, _) =>
      match c.codec.encode ret with
      | none => .done .otherError
      | some data =>
        if !origState.stale && data = origState.data then
          if origStateIsCurrent then .done (c.finish origState.data origState.rev)
          else .reading (.confirm origState ret data)
        else .writing origState ret data

/-- What follows a read. -/
def afterRead (after : AfterRead Obj) (origState : ObjState Obj) : Pc Obj ε :=
  match after with
  | .loop => c.loop origState true
  | .confirm _ ret data =>
    if data ≠ origState.data then c.loop origState true
    else if !origState.stale then .done (c.finish origState.data origState.rev)
    else .writing origState ret data

/-- What follows a read that may have failed, or have found nothing. -/
def continueWith (after : AfterRead Obj) : Except (Result Obj ε) (ObjState Obj) → Pc Obj ε
  | .error result => .done result
  | .ok origState => c.afterRead after origState

/-- The start of `GuaranteedUpdate`, with the cached object and its resource version, if there is
one. -/
def start : Option (Obj × ℕ) → Pc Obj ε
  | none => .reading .loop
  | some (obj, rev) =>
    match c.codec.encode obj with
    | none => .done .otherError
    | some data => c.loop ⟨obj, rev, data, false⟩ false

end Call

/-! ## The machine -/

/-- The content of the key. -/
abbrev Content := Option (Bytes × ℕ)

instance : DecidableEq (Content × Content) := inferInstance

structure Sys (K Obj ε : Type) where
  store : Mvcc.Store K Bytes
  pc : Pc Obj ε
  moments : List (Content × Content)

/-- Others write a value or a deletion; the call starts; it gets an answer to a read, with the stale
flag, or none; it cannot prepare the transaction; the transaction is answered, again with the stale
flag of what it reads if it does not succeed; or its answer is lost. -/
inductive Label (K Obj : Type) where
  | write (key : K) (value : Option Bytes)
  | begin (cachedExistingObject : Option (Obj × ℕ))
  | get (answer : Option Bool)
  | abort
  | txn (answer : Option Bool)
  | txnLost (applied : Bool)

section

variable {K Obj ε : Type} [DecidableEq K] [DecidableEq Obj] (c : Call K Obj ε)

/-- The object was stored under the key at the revision. -/
def WasStored (store : Mvcc.Store K Bytes) (obj : Obj) (rev : ℕ) : Prop :=
  ∃ w ∈ store.log, w.rev = rev ∧ w.key = c.key ∧ w.value.bind c.codec.decode = some obj

instance (store : Mvcc.Store K Bytes) (obj : Obj) (rev : ℕ) :
    Decidable (WasStored c store obj rev) :=
  inferInstanceAs (Decidable (∃ w ∈ store.log,
    w.rev = rev ∧ w.key = c.key ∧ w.value.bind c.codec.decode = some obj))

variable (s : Sys K Obj ε)

namespace Sys

def content : Content := s.store.get c.key

/-- The modification revision of the key, which is 0 if it does not exist. -/
def modRevision : ℕ :=
  match s.content c with
  | none => 0
  | some (_, rev) => rev

variable (store : Mvcc.Store K Bytes)

/-- A step while the call is running. -/
def advance (pc : Pc Obj ε) : Sys K Obj ε :=
  ⟨store, pc, s.moments ++ [(s.content c, store.get c.key)]⟩

/-- The state that was read, or an error of the request. -/
def read : Option Bool → Except (Result Obj ε) (ObjState Obj)
  | none => .error .otherError
  | some stale => c.getState (s.content c) stale

/-- The cached object may be given to the call. -/
def Genuine : Option (Obj × ℕ) → Prop
  | none => True
  | some (obj, rev) => WasStored c s.store obj rev

instance (s : Sys K Obj ε) (cached : Option (Obj × ℕ)) : Decidable (s.Genuine c cached) :=
  match cached with
  | none => isTrue trivial
  | some (obj, rev) => inferInstanceAs (Decidable (WasStored c s.store obj rev))

/-- Writes of others. -/
def others : Sys K Obj ε :=
  match s.pc with
  | .idle => { s with store := store }
  | .done _ => { s with store := store }
  | pc => s.advance c store pc

end Sys

/-- One call and the writes of others. -/
def machine : Machine (Sys K Obj ε) (Label K Obj) where
  init := ⟨Mvcc.Store.empty, .idle, []⟩
  step s
    | .write key value => some (s.others c (s.store.write key value))
    | .begin cached =>
      match s.pc with
      | .idle => if s.Genuine c cached then some (s.advance c s.store (c.start cached)) else none
      | _ => none
    | .get answer =>
      match s.pc with
      | .reading after => some (s.advance c s.store (c.continueWith after (s.read c answer)))
      | _ => none
    | .abort =>
      match s.pc with
      | .writing _ _ _ => some (s.advance c s.store (.done .otherError))
      | _ => none
    | .txn answer =>
      match s.pc with
      | .writing origState _ data =>
        if s.modRevision c = origState.rev then
          let store := s.store.write c.key (some data)
          some (s.advance c store (.done (c.finish data store.rev)))
        else some (s.advance c s.store (c.continueWith .loop (s.read c answer)))
      | _ => none
    | .txnLost applied =>
      match s.pc with
      | .writing origState _ data =>
        if applied then
          if s.modRevision c = origState.rev then
            some (s.advance c (s.store.write c.key (some data)) (.done .otherError))
          else none
        else some (s.advance c s.store (.done .otherError))
      | _ => none

/-! ## Atomicity -/

/-- The state, as the call sees it, of a key with a given content. -/
def Reads (stored : Content) (obj : Obj) (rev : ℕ) : Prop :=
  match stored with
  | none => c.ignoreNotFound = true ∧ obj = c.zero ∧ rev = 0
  | some (data, rev') => c.codec.decode data = some obj ∧ rev' = rev

variable (moments : List (Content × Content))

/-- At one of the moments the preconditions held for the stored state, `tryUpdate` made the returned
object of it, and the key held it right after. -/
def Succeeded (out : Obj) (outRev : ℕ) : Prop :=
  ∃ m ∈ moments, ∃ obj rev, Reads c m.1 obj rev ∧ c.check obj rev = none ∧
    (∃ ttl, c.tryUpdate obj rev = .ok (out, ttl)) ∧
    ∃ data, c.codec.encode out = some data ∧ m.2 = some (data, outRev)

/-- The result of a call was right at one of the moments. -/
def Justified : Result Obj ε → Prop
  | .ok out outRev => Succeeded c moments out outRev
  | .preconditionFailed err => ∃ m ∈ moments, ∃ obj rev, Reads c m.1 obj rev ∧
      c.check obj rev = some err
  | .updateFailed err => ∃ m ∈ moments, ∃ obj rev, Reads c m.1 obj rev ∧
      c.check obj rev = none ∧ c.tryUpdate obj rev = .error err
  | .keyNotFound => True
  | .otherError => True

/-- The answer to the read that confirms a result: the cached state, and the bytes that need not be
written. -/
def Sys.confirming (e : Label K Obj) : Option (ObjState Obj × Bytes) :=
  match s.pc, e with
  | .reading (.confirm origState _ data), .get (some _) => some (origState, data)
  | _, _ => none

/-- The condition on a step: if the read that confirms a result finds its bytes, it finds them at
the revision of the cached object. -/
def Sys.Confirmed (e : Label K Obj) : Prop :=
  ∀ p ∈ s.confirming e, ∀ kv ∈ s.content c, kv.1 = p.2 → kv.2 = p.1.rev

instance (s : Sys K Obj ε) (e : Label K Obj) : Decidable (s.Confirmed c e) :=
  inferInstanceAs (Decidable
    (∀ p ∈ s.confirming e, ∀ kv ∈ s.content c, kv.1 = p.2 → kv.2 = p.1.rev))

end

section

variable {K Obj ε : Type} {c : Call K Obj ε} {store : Mvcc.Store K Bytes}
  {moments : List (Content × Content)}

variable {obj ret : Obj} {rev : ℕ}

lemma WasStored.write (h : WasStored c store obj rev) (key : K) (value : Option Bytes) :
    WasStored c (store.write key value) obj rev := by
  rcases h with ⟨w, hw, hrest⟩
  exact ⟨w, Mvcc.Write.mem_of_mem hw key value, hrest⟩

/-- Where the state on which the call works comes from: the key did not exist, or it was stored. -/
def Origin (c : Call K Obj ε) (store : Mvcc.Store K Bytes) (obj : Obj) (rev : ℕ) : Prop :=
  c.ignoreNotFound = true ∧ obj = c.zero ∧ rev = 0 ∨ WasStored c store obj rev

/-- The call has checked a state, and has a result of it to write. -/
structure Prepared (c : Call K Obj ε) (store : Mvcc.Store K Bytes) (st : ObjState Obj) (ret : Obj)
    (data : Bytes) : Prop where
  check : c.check st.obj st.rev = none
  update : ∃ ttl, c.tryUpdate st.obj st.rev = .ok (ret, ttl)
  encode : c.codec.encode ret = some data
  origin : Origin c store st.obj st.rev

/-- What holds wherever the call is. -/
def PcInv (c : Call K Obj ε) (store : Mvcc.Store K Bytes) (moments : List (Content × Content)) :
    Pc Obj ε → Prop
  | .idle => True
  | .reading .loop => True
  | .reading (.confirm origState ret data) => Prepared c store origState ret data
  | .writing origState ret data => Prepared c store origState ret data
  | .done result => Justified c moments result

variable {st : ObjState Obj} {data : Bytes}

lemma Prepared.write (h : Prepared c store st ret data) (key : K) (value : Option Bytes) :
    Prepared c (store.write key value) st ret data :=
  ⟨h.check, h.update, h.encode, h.origin.imp_right fun hw => hw.write key value⟩

/-- The state was read at one of the moments. -/
def Seen (c : Call K Obj ε) (moments : List (Content × Content)) (st : ObjState Obj) : Prop :=
  ∃ m ∈ moments, Reads c m.1 st.obj st.rev ∧ (st.data = [] ∨ m.2 = some (st.data, st.rev))

lemma finish_eq (h : c.codec.encode ret = some data) (rev : ℕ) :
    c.finish data rev = .ok ret rev := by
  unfold Call.finish
  rw [c.codec.decode_encode h]

lemma Prepared.succeeded (h : Prepared c store st ret data) (hseen : Seen c moments st)
    (hdata : data = st.data) :
    Justified c moments (c.finish st.data st.rev) := by
  subst hdata
  rcases hseen with ⟨m, hm, hreads, hnil | hstored⟩
  · exact absurd hnil (c.codec.encode_ne_nil h.encode)
  · rw [finish_eq h.encode]
    exact ⟨m, hm, st.obj, st.rev, hreads, h.check, h.update, _, h.encode, hstored⟩

lemma pcInv_loop {current : Bool} (horigin : Origin c store st.obj st.rev)
    (hseen : current = true → Seen c moments st) : PcInv c store moments (c.loop st current) := by
  unfold Call.loop
  cases hcheck : c.check st.obj st.rev with
  | some err =>
    cases current with
    | false => trivial
    | true =>
      rcases hseen rfl with ⟨m, hm, hreads, -⟩
      exact ⟨m, hm, st.obj, st.rev, hreads, hcheck⟩
  | none =>
    cases hupdate : c.tryUpdate st.obj st.rev with
    | error err =>
      cases current with
      | false => trivial
      | true =>
        rcases hseen rfl with ⟨m, hm, hreads, -⟩
        exact ⟨m, hm, st.obj, st.rev, hreads, hcheck, hupdate⟩
    | ok p =>
      rcases p with ⟨ret, ttl⟩
      dsimp only
      cases hencode : c.codec.encode ret with
      | none => trivial
      | some data =>
        have hprepared : Prepared c store st ret data := ⟨hcheck, ⟨ttl, hupdate⟩, hencode, horigin⟩
        dsimp only
        split
        · rename_i hsame
          rw [Bool.and_eq_true, decide_eq_true_eq] at hsame
          cases current with
          | false => exact hprepared
          | true => exact hprepared.succeeded (hseen rfl) hsame.2
        · exact hprepared

variable {s : Sys K Obj ε}

/-- A cached object was stored, but need not be current. -/
lemma pcInv_start {cached : Option (Obj × ℕ)} (h : s.Genuine c cached)
    (moments : List (Content × Content)) : PcInv c s.store moments (c.start cached) := by
  unfold Call.start
  cases cached with
  | none => trivial
  | some p =>
    rcases p with ⟨obj, rev⟩
    dsimp only
    cases c.codec.encode obj with
    | none => trivial
    | some data => exact pcInv_loop (Or.inr h) nofun

variable [DecidableEq K]

/-- What is stored at the revision of an object is that object. -/
lemma WasStored.decode (h : WasStored c store obj rev)
    (hget : store.get c.key = some (data, rev)) : c.codec.decode data = some obj := by
  rcases h with ⟨⟨rev', key, value⟩, hw, rfl, rfl, hvalue⟩
  rcases Option.bind_eq_some_iff.1 hvalue with ⟨data', rfl, hdecode⟩
  rw [Mvcc.get_of_mem hw hget]
  exact hdecode

lemma wasStored_of_get (hget : store.get c.key = some (data, rev))
    (hdecode : c.codec.decode data = some obj) : WasStored c store obj rev :=
  ⟨_, (Mvcc.mem_of_getAt hget).1, rfl, rfl, hdecode⟩

/-- The key has the revision of a state only while it has that state. -/
lemma Origin.reads (h : Origin c s.store obj rev) (hrev : s.modRevision c = rev) :
    Reads c (s.content c) obj rev := by
  unfold Sys.modRevision at hrev
  cases hcont : s.content c with
  | none =>
    rw [hcont] at hrev
    rcases h with h | ⟨w, hw, hwrev, -⟩
    · exact h
    · have hpos := (s.store.bounds w hw).1
      dsimp only at hrev
      omega
  | some stored =>
    rcases stored with ⟨data, rev'⟩
    rw [hcont] at hrev
    subst hrev
    rcases h with ⟨-, -, rfl⟩ | h
    · have hpos := (s.store.bounds _ (Mvcc.mem_of_getAt hcont).1).1
      exact absurd hpos (Nat.lt_irrefl 0)
    · exact ⟨h.decode hcont, rfl⟩

variable {answer : Option Bool}

lemma read_spec (h : s.read c answer = .ok st) :
    Origin c s.store st.obj st.rev ∧ Reads c (s.content c) st.obj st.rev ∧
      (st.data = [] ∨ s.content c = some (st.data, st.rev)) := by
  cases answer with
  | none => cases h
  | some stale =>
    unfold Sys.read Call.getState at h
    cases hcont : s.content c with
    | none =>
      rw [hcont] at h
      split_ifs at h with hignore
      cases h
      exact ⟨Or.inl ⟨hignore, rfl, rfl⟩, ⟨hignore, rfl, rfl⟩, Or.inl rfl⟩
    | some stored =>
      rcases stored with ⟨data, rev⟩
      rw [hcont] at h
      dsimp only at h
      cases hdecode : c.codec.decode data with
      | none =>
        rw [hdecode] at h
        cases h
      | some obj =>
        rw [hdecode] at h
        cases h
        exact ⟨Or.inr (wasStored_of_get hcont hdecode), ⟨hdecode, rfl⟩, Or.inr rfl⟩

/-- The errors of a read are of neither kind. -/
lemma read_error {result : Result Obj ε} (h : s.read c answer = .error result)
    (moments : List (Content × Content)) :
    Justified c moments result := by
  cases answer with
  | none =>
    cases h
    trivial
  | some stale =>
    unfold Sys.read Call.getState at h
    dsimp only at h
    split at h
    · split_ifs at h
      cases h
      trivial
    · split at h
      · cases h
        trivial
      · cases h

/-- A read, after which the loop starts again or the result of a cached object is compared. -/
lemma pcInv_continueWith {after : AfterRead Obj}
    (hpc : PcInv c s.store s.moments (.reading after))
    (hconfirmed : ∀ origState ret data, after = .confirm origState ret data → ∀ rev,
      s.content c = some (data, rev) → rev = origState.rev) :
    PcInv c s.store (s.moments ++ [(s.content c, s.content c)])
      (c.continueWith after (s.read c answer)) := by
  cases hread : s.read c answer with
  | error result => exact read_error hread _
  | ok st =>
    rcases read_spec hread with ⟨horigin, hreads, hdata⟩
    have hseen : Seen c (s.moments ++ [(s.content c, s.content c)]) st :=
      ⟨_, List.mem_append_right _ (List.mem_singleton_self _), hreads, hdata⟩
    have hloop : PcInv c s.store (s.moments ++ [(s.content c, s.content c)]) (c.loop st true) :=
      pcInv_loop horigin fun _ => hseen
    cases after with
    | loop => exact hloop
    | confirm origState ret data =>
      unfold Call.continueWith Call.afterRead
      dsimp only
      split
      · exact hloop
      rename_i hsame
      rw [not_not] at hsame
      rcases hdata with hnil | hcont
      · exact absurd (hsame.trans hnil) (c.codec.encode_ne_nil hpc.encode)
      -- the bytes are those of the cached object, at its revision
      rw [← hsame] at hcont
      have hrev := hconfirmed origState ret data rfl st.rev hcont
      have hmod : s.modRevision c = origState.rev := by
        unfold Sys.modRevision
        rw [hcont]
        exact hrev
      have hobj : st.obj = origState.obj := by
        have horig := hpc.origin.reads hmod
        rw [hcont] at horig hreads
        exact Option.some.inj (hreads.1.symm.trans horig.1)
      have hprepared : Prepared c s.store st ret data := by
        refine ⟨?_, ?_, hpc.encode, horigin⟩
        · rw [hobj, hrev]
          exact hpc.check
        · rw [hobj, hrev]
          exact hpc.update
      split
      · exact hprepared.succeeded hseen hsame
      · exact hprepared

lemma pcInv_others (h : PcInv c s.store s.moments s.pc) (key : K) (value : Option Bytes) :
    PcInv c (s.others c (s.store.write key value)).store
      (s.others c (s.store.write key value)).moments (s.others c (s.store.write key value)).pc := by
  rcases s with ⟨store, pc, moments⟩
  cases pc with
  | idle => trivial
  | reading after =>
    cases after with
    | loop => trivial
    | confirm origState ret data => exact Prepared.write h key value
  | writing origState ret data => exact Prepared.write h key value
  | done result => exact h

lemma Prepared.txn {origState : ObjState Obj} (h : Prepared c s.store origState ret data)
    (hrev : s.modRevision c = origState.rev) :
    Justified c (s.moments ++ [(s.content c, (s.store.write c.key (some data)).get c.key)])
      (c.finish data (s.store.write c.key (some data)).rev) := by
  rw [finish_eq h.encode, Mvcc.get_write, if_pos rfl]
  exact ⟨_, List.mem_append_right _ (List.mem_singleton_self _), origState.obj, origState.rev,
    h.origin.reads hrev, h.check, h.update, data, h.encode, rfl⟩

lemma pcInv_step [DecidableEq Obj] {s' : Sys K Obj ε} {e : Label K Obj}
    (h : PcInv c s.store s.moments s.pc) (hconfirmed : s.Confirmed c e)
    (hstep : (machine c).step s e = some s') : PcInv c s'.store s'.moments s'.pc := by
  rcases s with ⟨store, pc, moments⟩
  cases e with
  | write key value =>
    cases hstep
    exact pcInv_others h key value
  | begin cached =>
    cases pc with
    | idle =>
      dsimp only [machine] at hstep
      split_ifs at hstep with hgenuine
      cases hstep
      exact pcInv_start hgenuine _
    | _ => cases hstep
  | get answer =>
    cases pc with
    | reading after =>
      cases hstep
      cases answer with
      | none => trivial
      | some stale =>
        apply pcInv_continueWith h
        rintro origState ret data rfl rev hcont
        exact hconfirmed (origState, data) rfl (data, rev) hcont rfl
    | _ => cases hstep
  | abort =>
    cases pc with
    | writing origState ret data =>
      cases hstep
      trivial
    | _ => cases hstep
  | txn answer =>
    cases pc with
    | writing origState ret data =>
      dsimp only [machine] at hstep
      split_ifs at hstep with hrev
      · cases hstep
        exact Prepared.txn h hrev
      · cases hstep
        exact pcInv_continueWith (s := ⟨store, .reading .loop, moments⟩) trivial nofun
    | _ => cases hstep
  | txnLost applied =>
    cases pc with
    | writing origState ret data =>
      cases applied with
      | false =>
        cases hstep
        trivial
      | true =>
        dsimp only [machine] at hstep
        split at hstep
        · split_ifs at hstep
          cases hstep
          trivial
        · cases hstep
          trivial
    | _ => cases hstep

/-- In every run in which a result that is not written is only confirmed by the revision it was
computed from, a call that succeeds does so at one moment, and an error of the preconditions or of
`tryUpdate` is one of the state of some moment. -/
theorem guaranteedUpdate_atomic [DecidableEq Obj] (c : Call K Obj ε) {tr : List (Label K Obj)}
    {s : Sys K Obj ε} (h : (machine c).ReachWhen (fun s e => s.Confirmed c e) tr s) :
    ∀ result, s.pc = .done result → Justified c s.moments result := by
  intro result hdone
  have hinv : PcInv c s.store s.moments s.pc := by
    refine h.invariant (fun s => PcInv c s.store s.moments s.pc) ?_ ?_
    · trivial
    · intro s e s' hinv hok hstep
      exact pcInv_step hinv hok hstep
  rw [hdone] at hinv
  exact hinv

end

/-! ## A value that comes back -/

/-- Objects of one byte, stored as they are. -/
def byteCodec : Codec Byte where
  encode obj := some [obj]
  decode
    | [obj] => some obj
    | _ => none
  decode_encode h := by
    cases h
    rfl
  encode_ne_nil h := by
    cases h
    exact List.cons_ne_nil _ _

/-- A call that asks for a resource version, and leaves the object as it is. -/
def keepAt (resourceVersion : Str) : Call Unit Byte Unit where
  key := ()
  ignoreNotFound := false
  preconditions := some ⟨none, some resourceVersion⟩
  tryUpdate obj _ := .ok (obj, none)
  codec := byteCodec
  zero := 0
  uidOf _ := []

/-- The object is written at revision 2, replaced, and written again at revision 4. The call gets
the object of revision 2 from the cache. -/
def valueReturns : List (Label Unit Byte) :=
  [.write () (some [1]), .write () (some [2]), .write () (some [1]), .begin (some (1, 2)),
    .get (some false)]

/-- What a call that has succeeded returns, and its moments. -/
def Sys.success (s : Sys Unit Byte Unit) : Option (Byte × ℕ) × List (Content × Content) :=
  match s.pc with
  | .done (.ok out rev) => (some (out, rev), s.moments)
  | _ => (none, s.moments)

lemma Sys.pc_of_success {s : Sys Unit Byte Unit} {out : Byte} {rev : ℕ}
    {moments : List (Content × Content)} (h : s.success = (some (out, rev), moments)) :
    s.pc = .done (.ok out rev) ∧ s.moments = moments := by
  unfold Sys.success at h
  split at h
  · rename_i hpc
    cases h
    exact ⟨hpc, rfl⟩
  · cases h

/-- The call succeeds although the key never has the resource version that it asks for. -/
theorem success_without_recheck : ∃ s, (machine (keepAt ['2'])).Reach valueReturns s ∧
    s.pc = .done (.ok 1 4) ∧ ¬ Justified (keepAt ['2']) s.moments (.ok 1 4) := by
  rcases (machine (keepAt ['2'])).exists_reach Sys.success valueReturns
    (some (1, 4), [(some ([1], 4), some ([1], 4)), (some ([1], 4), some ([1], 4))])
    (by decide +kernel) with ⟨s, hreach, hs⟩
  rcases Sys.pc_of_success hs with ⟨hpc, hmoments⟩
  refine ⟨s, hreach, hpc, ?_⟩
  rw [hmoments]
  rintro ⟨m, hm, obj, rev, hreads, hcheck, -⟩
  have hm' : m = (some ([1], 4), some ([1], 4)) := by
    rcases List.mem_cons.1 hm with rfl | hm
    · rfl
    · exact List.mem_singleton.1 hm
  subst hm'
  rcases hreads with ⟨hdecode, rfl⟩
  cases hdecode
  exact absurd hcheck (by decide)

/-- The same writes, and a call that gets the object of revision 4. -/
def valueConfirmed : List (Label Unit Byte) :=
  [.write () (some [1]), .write () (some [2]), .write () (some [1]), .begin (some (1, 4)),
    .get (some false)]

theorem guaranteedUpdate_atomic_confirmed : ∃ s, (machine (keepAt ['4'])).Reach valueConfirmed s ∧
    s.pc = .done (.ok 1 4) ∧ Justified (keepAt ['4']) s.moments (.ok 1 4) := by
  rcases (machine (keepAt ['4'])).exists_reachWhen (fun s e => s.Confirmed (keepAt ['4']) e)
    Sys.success valueConfirmed
    (some (1, 4), [(some ([1], 4), some ([1], 4)), (some ([1], 4), some ([1], 4))])
    (by decide +kernel) with ⟨s, hreach, hs⟩
  have hpc := (Sys.pc_of_success hs).1
  exact ⟨s, hreach.reach, hpc, guaranteedUpdate_atomic (keepAt ['4']) hreach _ hpc⟩

end Kubernetes.Apiserver.EtcdStore
