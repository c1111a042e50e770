import Kubernetes.Apiserver.SelectionPredicate
import Kubernetes.ByteString
import Kubernetes.Decimal
import Kubernetes.Mvcc

/-! # Lists in pages

A model of `List` of `storage/etcd3/store.go`, with `decodeContinue` and `encodeContinue`. A list
with a limit is read from etcd in chunks until enough objects match, or no key is left; then the
client gets a token that says after which key, and at which revision, the next page starts.

Other writers may write before every request, so a list is a function of a history of the store.
A token is text made of JSON, which is left open: it is a value of some type, from which what was
encoded can be decoded, but with U+FFFD in the place of bytes that are not UTF-8.

One call is the work of this module: `chunks_spec` says how much of the keys that are left it reads,
what it returns of them and where it stops.
-/

namespace Kubernetes.Apiserver.EtcdList

open ByteString Decimal List Option

/-! ## Requests to etcd -/

/-- A key with its value and modification revision. -/
abbrev KeyValue (V : Type) := Bytes × V × ℕ

structure GetResponse (V : Type) where
  kvs : List (KeyValue V)
  more : Bool
  count : ℕ
  revision : ℕ

/-- The keys of a range; the zero byte is no end. -/
def InRange (key rangeEnd k : Bytes) : Prop := key ≤ k ∧ (rangeEnd = [0] ∨ k < rangeEnd)

instance (key rangeEnd k : Bytes) : Decidable (InRange key rangeEnd k) :=
  inferInstanceAs (Decidable (key ≤ k ∧ (rangeEnd = [0] ∨ k < rangeEnd)))

/-- A range request. Without a limit (0) it returns all keys, without a revision (0 or less) those
there are now. It fails if the revision is in the future. -/
def etcdGet {V : Type} (store : Mvcc.Store Bytes V) (key rangeEnd : Bytes) (limit : ℕ) (rev : ℤ) :
    Option (GetResponse V) :=
  let atRev := if rev ≤ 0 then store.rev else rev.toNat
  if store.rev < atRev then none
  else
    let all := store.rangeAt atRev (InRange key rangeEnd)
    if limit = 0 then some ⟨all, false, all.length, store.rev⟩
    else some ⟨all.take limit, limit < all.length, all.length, store.rev⟩

/-- A path that starts with a slash and that `path.Clean` leaves alone. -/
def CleanPath (key : Bytes) : Prop := ∃ p, key = slash :: p ∧ clean p = p

/-- The store at each request to it; between them others write. Its keys are clean paths, and its
revisions are positive and of type `int64`. -/
structure History (V : Type) where
  store : ℕ → Mvcc.Store Bytes V
  step : ∀ n, ∃ ws, store (n + 1) = (store n).writes ws
  clean : ∀ n, ∀ w ∈ (store n).log, CleanPath w.key
  bounded : ∀ n, 0 < (store n).rev ∧ (store n).rev < 2 ^ 63

/-! ## Tokens -/

structure ContinueToken where
  apiVersion : String
  resourceVersion : ℤ
  startKey : Bytes

/-- The text of a token: JSON in base64. JSON strings are UTF-8. -/
structure TokenCodec (T : Type) where
  encode : ContinueToken → T
  decode : T → Option ContinueToken
  decode_encode : ∀ t, decode (encode t) = some { t with startKey := toValidUtf8 t.startKey }

inductive ListError where
  | invalidContinue
  | resourceVersionWithContinue
  | invalidResourceVersion
  | unknownResourceVersionMatch
  | tooLargeResourceVersion
  | illegalResourceVersion
  | unableToEncodeNext
  | noResultsButMore
  | request
  | undecodable (key : Bytes)
deriving DecidableEq

def decodeContinue {T : Type} (codec : TokenCodec T) (continueValue : T) (keyPrefix : Bytes) :
    Except ListError (Bytes × ℤ) :=
  match codec.decode continueValue with
  | none => .error .invalidContinue
  | some c =>
    if c.apiVersion ≠ "meta.k8s.io/v1" then .error .invalidContinue
    else if c.resourceVersion = 0 then .error .invalidContinue
    else if c.startKey = [] then .error .invalidContinue
    else
      -- the key without its leading slash, which is there or added
      let key := if c.startKey.head? = some slash then c.startKey.tail else c.startKey
      if clean key ≠ key then .error .invalidContinue
      else .ok (keyPrefix ++ clean key, c.resourceVersion)

def encodeContinue {T : Type} (codec : TokenCodec T) (key keyPrefix : Bytes)
    (resourceVersion : ℤ) : Except ListError T :=
  let nextKey := if keyPrefix.isPrefixOf key then key.drop keyPrefix.length else key
  if nextKey = key then .error .unableToEncodeNext
  else .ok (codec.encode ⟨"meta.k8s.io/v1", resourceVersion, nextKey⟩)

/-! ## Lists -/

/-- `SelectionPredicate`, as far as a list uses it. The attributes are those of an object with its
resource version; no token is the empty string. -/
structure ListPredicate (Obj T : Type) where
  label : LabelSelector
  field : FieldSelector
  getAttrs : Obj → ℕ → Option (Labels × Fields)
  limit : ℤ
  continueToken : Option T

namespace ListPredicate

variable {Obj T : Type} (pred : ListPredicate Obj T)

def empty : Bool := pred.label.empty && pred.field.empty

/-- `Matches`, which is false if it fails. -/
def matchesObj (obj : Obj) (rev : ℕ) : Bool :=
  if pred.empty then true
  else
    match pred.getAttrs obj rev with
    | none => false
    | some (labels, fields) => pred.label.matchesLabels labels && pred.field.matches fields

lemma matchesObj_of_empty (h : pred.empty = true) (obj : Obj) (rev : ℕ) :
    pred.matchesObj obj rev = true := if_pos h

end ListPredicate

/-- `ResourceVersionMatch`. -/
inductive VersionMatch where
  | unset
  | notOlderThan
  | exact
  | unknown

structure ListOptions (Obj T : Type) where
  resourceVersion : List Char
  resourceVersionMatch : VersionMatch
  predicate : ListPredicate Obj T

/-- The store: its path, whether it pages, what it stores, and the text of tokens. `decode` is what
`TransformFromStorage` and the codec make of a stored value. -/
structure Config (V Obj T : Type) where
  pathPrefix : Bytes
  pagingEnabled : Bool
  remainingItemCount : Bool
  decode : V → Option Obj
  codec : TokenCodec T

/-- An object of a list, with the key it is stored under. -/
structure Item (Obj : Type) where
  key : Bytes
  obj : Obj
  rev : ℕ

/-- What a call returns. -/
structure Page (Obj T : Type) where
  items : List (Item Obj)
  resourceVersion : ℤ
  next : Option T
  remainingItemCount : Option ℤ

/-- `path.Join`, where the first path starts with a slash. -/
def pathJoin (a b : Bytes) : Bytes := slash :: clean (a.tail ++ slash :: b)

/-- `ParseUint`, in base 10 and 64 bits. -/
def parseUint64 (s : List Char) : Option ℕ :=
  if s ≠ [] ∧ s.all Char.isDigit ∧ ofDigits s < 2 ^ 64 then some (ofDigits s) else none

def parseResourceVersion (resourceVersion : List Char) : Option ℕ :=
  if resourceVersion = [] ∨ resourceVersion = ['0'] then some 0 else parseUint64 resourceVersion

section

variable {V Obj T : Type} (c : Config V Obj T) (hist : History V) (opts : ListOptions Obj T)

/-- The path below which objects are listed; `newStore` joins the configured one to the root. -/
def Config.keyPrefix (key : Bytes) : Bytes :=
  let key := pathJoin (pathJoin [slash] c.pathPrefix) key
  if key.getLast? = some slash then key else key ++ [slash]

/-- Where the keys below this path end. -/
abbrev Config.rangeEnd (key : Bytes) : Bytes := prefixEnd (c.keyPrefix key)

/-- Paging is on for the call. -/
def paging : Bool := c.pagingEnabled && decide (0 < opts.predicate.limit)

/-- The revision to read, 0 for the present one: of a list in pages, or of one that is not. -/
def requestedRevision (paged : Bool) (fromRV : Option ℕ) : Except ListError ℤ :=
  match fromRV with
  | none => .ok 0
  | some fromRV =>
    match opts.resourceVersionMatch with
    | .notOlderThan => .ok 0
    | .exact => .ok (int64 fromRV)
    | .unset => if paged && decide (0 < fromRV) then .ok (int64 fromRV) else .ok 0
    | .unknown => .error .unknownResourceVersionMatch

/-- Where the list starts: the key, and the revision. -/
def start (keyPrefix : Bytes) : Except ListError (Bytes × ℤ) :=
  let fromRV : Except ListError (Option ℕ) :=
    if opts.resourceVersion = [] then .ok none
    else
      match parseResourceVersion opts.resourceVersion with
      | none => .error .invalidResourceVersion
      | some rv => .ok (some rv)
  match fromRV with
  | .error err => .error err
  | .ok fromRV =>
    match c.pagingEnabled, opts.predicate.continueToken with
    | true, some token =>
      match decodeContinue c.codec token keyPrefix with
      | .error err => .error err
      | .ok (continueKey, continueRV) =>
        if opts.resourceVersion ≠ [] ∧ opts.resourceVersion ≠ ['0'] then
          .error .resourceVersionWithContinue
        else .ok (continueKey, if 0 < continueRV then continueRV else 0)
    | _, _ => (requestedRevision opts (paging c opts) fromRV).map fun rev => (keyPrefix, rev)

/-- `appendListItem`. -/
def itemOf (kv : KeyValue V) : Option (Item Obj) :=
  match c.decode kv.2.1 with
  | none => none
  | some obj => if opts.predicate.matchesObj obj kv.2.2 then some ⟨kv.1, obj, kv.2.2⟩ else none

/-- The loop over a response: the items, the last key that was read, and whether it has stopped
because there are enough items. -/
def scan : List (KeyValue V) → List (Item Obj) → Bytes →
    Except ListError (List (Item Obj) × Bytes × Bool)
  | [], items, lastKey => .ok (items, lastKey, false)
  | kv :: kvs, items, lastKey =>
    if paging c opts && decide (opts.predicate.limit ≤ items.length) then .ok (items, lastKey, true)
    else
      match c.decode kv.2.1 with
      | none => .error (.undecodable kv.1)
      | some _ => scan kvs (items ++ (itemOf c opts kv).toList) kv.1

def validateMinimumResourceVersion (actualRevision : ℕ) : Except ListError Unit :=
  if opts.resourceVersion = [] then .ok ()
  else
    match parseResourceVersion opts.resourceVersion with
    | none => .error .invalidResourceVersion
    | some minimumRV =>
      if actualRevision < minimumRV then .error .tooLargeResourceVersion else .ok ()

/-- What the loop over requests ends with; `requests` is the number of the next one. -/
structure Filled (Obj : Type) where
  items : List (Item Obj)
  lastKey : Bytes
  hasMore : Bool
  returnedRV : ℤ
  count : ℕ
  requests : ℕ

/-- The loop over requests, each of which sees the store of its number. -/
def chunks (rangeEnd : Bytes) : ℕ → ℕ → Bytes → ℤ → ℤ → List (Item Obj) → Bytes →
    Option (Except ListError (Filled Obj))
  | 0, _, _, _, _, _, _ => none
  | fuel + 1, n, key, withRev, returnedRV, items, lastKey =>
    match etcdGet (hist.store n) key rangeEnd
      (if paging c opts then opts.predicate.limit.toNat else 0) withRev with
    | none => some (.error .request)
    | some getResp =>
      match validateMinimumResourceVersion opts getResp.revision with
      | .error err => some (.error err)
      | .ok () =>
        if getResp.kvs.isEmpty && getResp.more then some (.error .noResultsButMore)
        else
          match scan c opts getResp.kvs items lastKey with
          | .error err => some (.error err)
          | .ok (items, lastKey, full) =>
            let hasMore := getResp.more || full
            let returnedRV := if returnedRV = 0 then (getResp.revision : ℤ) else returnedRV
            if !hasMore || !paging c opts || decide (opts.predicate.limit ≤ items.length) then
              some (.ok ⟨items, lastKey, hasMore, returnedRV, getResp.count, n + 1⟩)
            else
              chunks rangeEnd fuel (n + 1) (lastKey ++ [0])
                (if withRev = 0 then returnedRV else withRev) returnedRV items lastKey

/-- The end of `List`: the token, and the number of items that are left. -/
def updateList (keyPrefix : Bytes) (filled : Filled Obj) : Except ListError (Page Obj T) :=
  if filled.hasMore then
    match encodeContinue c.codec (filled.lastKey ++ [0]) keyPrefix filled.returnedRV with
    | .error err => .error err
    | .ok next =>
      let remaining := if c.remainingItemCount && opts.predicate.empty then
        some ((filled.count : ℤ) - opts.predicate.limit) else none
      if filled.returnedRV = 0 then .error .illegalResourceVersion
      else .ok ⟨filled.items, filled.returnedRV, some next, remaining⟩
  else if filled.returnedRV = 0 then .error .illegalResourceVersion
  else .ok ⟨filled.items, filled.returnedRV, none, none⟩

/-- `List`, from the request with a number on: the page, and the number of the next request. -/
def list (fuel n : ℕ) (key : Bytes) : Option (Except ListError (Page Obj T × ℕ)) :=
  match start c opts (c.keyPrefix key) with
  | .error err => some (.error err)
  | .ok (fromKey, rev) =>
    match chunks c hist opts (c.rangeEnd key) fuel n fromKey rev rev [] [] with
    | none => none
    | some (.error err) => some (.error err)
    | some (.ok filled) =>
      some ((updateList c opts (c.keyPrefix key) filled).map fun page => (page, filled.requests))

end

/-! ## One response -/

section

variable {V Obj T : Type} {c : Config V Obj T} {hist : History V} {opts : ListOptions Obj T}

/-- What the loop over a response has read, `read`, and has not, `rest`. -/
structure Scanned (c : Config V Obj T) (opts : ListOptions Obj T) (before : List (Item Obj))
    (keyBefore : Bytes) (read rest : List (KeyValue V)) (result : List (Item Obj) × Bytes × Bool) :
    Prop where
  decodes : ∀ kv ∈ read, c.decode kv.2.1 ≠ none
  items : result.1 = before ++ read.filterMap (itemOf c opts)
  lastKey : result.2.1 = (read.getLast?.map Prod.fst).getD keyBefore
  full : result.2.2 = true ↔ rest ≠ []
  enough : rest ≠ [] → paging c opts = true ∧ opts.predicate.limit ≤ result.1.length
  bound : paging c opts = true → (before.length : ℤ) ≤ opts.predicate.limit →
    (result.1.length : ℤ) ≤ opts.predicate.limit

variable {items : List (Item Obj)} {lastKey : Bytes} {read left : List (KeyValue V)}
  {result : List (Item Obj) × Bytes × Bool}

lemma Scanned.cons {kv : KeyValue V} {rest : List (KeyValue V)} (hdecode : c.decode kv.2.1 ≠ none)
    (hlt : paging c opts = true → (items.length : ℤ) < opts.predicate.limit)
    (h : Scanned c opts (items ++ (itemOf c opts kv).toList) kv.1 read rest result) :
    Scanned c opts items lastKey (kv :: read) rest result where
  decodes := by
    intro kv' hkv'
    rcases mem_cons.1 hkv' with rfl | hkv'
    · exact hdecode
    · exact h.decodes kv' hkv'
  items := by
    rw [h.items, append_assoc]
    congr 1
    cases hitem : itemOf c opts kv with
    | none => rw [filterMap_cons_none hitem, toList_none, nil_append]
    | some item => rw [filterMap_cons_some hitem, toList_some, singleton_append]
  lastKey := by
    rw [h.lastKey, getLast?_cons]
    cases read.getLast? with
    | none => rfl
    | some last => rfl
  full := h.full
  enough := h.enough
  bound := by
    intro hpaging _
    apply h.bound hpaging
    have hone : (itemOf c opts kv).toList.length ≤ 1 := length_toList_le
    have hitems := hlt hpaging
    rw [length_append]
    omega

variable (c opts) in
lemma scan_spec (kvs : List (KeyValue V)) (items : List (Item Obj)) (lastKey : Bytes) :
    match scan c opts kvs items lastKey with
    | .error err => ∃ kv ∈ kvs, c.decode kv.2.1 = none ∧ err = .undecodable kv.1
    | .ok result => ∃ read rest, kvs = read ++ rest ∧
        Scanned c opts items lastKey read rest result := by
  induction kvs generalizing items lastKey with
  | nil =>
    refine ⟨[], [], rfl, ?_⟩
    exact {
      decodes := fun kv hkv => absurd hkv not_mem_nil
      items := (append_nil _).symm
      lastKey := rfl
      full := by simp
      enough := fun h => absurd rfl h
      bound := fun _ h => h }
  | cons kv kvs ih =>
    rw [scan]
    split_ifs with hfull
    · rw [Bool.and_eq_true, decide_eq_true_eq] at hfull
      refine ⟨[], kv :: kvs, rfl, ?_⟩
      exact {
        decodes := fun kv hkv => absurd hkv not_mem_nil
        items := (append_nil _).symm
        lastKey := rfl
        full := by simp
        enough := fun _ => hfull
        bound := fun _ h => h }
    cases hdecode : c.decode kv.2.1 with
    | none => exact ⟨kv, mem_cons_self, hdecode, rfl⟩
    | some obj =>
      have hlt : paging c opts = true → (items.length : ℤ) < opts.predicate.limit := by
        intro hpaging
        rw [hpaging, Bool.true_and, decide_eq_true_eq] at hfull
        omega
      have ih' := ih (items ++ (itemOf c opts kv).toList) kv.1
      cases hscan : scan c opts kvs (items ++ (itemOf c opts kv).toList) kv.1 with
      | error err =>
        rw [hscan] at ih'
        rcases ih' with ⟨kv', hkv', hrest⟩
        exact ⟨kv', mem_cons_of_mem _ hkv', hrest⟩
      | ok result =>
        rw [hscan] at ih'
        rcases ih' with ⟨read, rest, rfl, hscanned⟩
        exact ⟨kv :: read, rest, rfl, hscanned.cons (by rw [hdecode]; exact nofun) hlt⟩

/-! ## Several responses -/

/-- The keys of a range that have a value at a revision, as a request with a number sees them. -/
def History.range (hist : History V) (n rv : ℕ) (key rangeEnd : Bytes) : List (KeyValue V) :=
  (hist.store n).rangeAt rv (InRange key rangeEnd)

lemma History.rev_le (hist : History V) (n : ℕ) :
    (hist.store n).rev ≤ (hist.store (n + 1)).rev := by
  rcases hist.step n with ⟨ws, hws⟩
  rw [hws]
  exact Mvcc.rev_le_writes ws

variable {n rv : ℕ}

lemma History.range_succ (h : rv ≤ (hist.store n).rev) (key rangeEnd : Bytes) :
    hist.range (n + 1) rv key rangeEnd = hist.range n rv key rangeEnd := by
  rcases hist.step n with ⟨ws, hws⟩
  unfold History.range
  rw [hws]
  exact Mvcc.rangeAt_writes h ws _

/-- What is left of a range after a key that was read. -/
lemma History.range_resume {key rangeEnd : Bytes} (h : rv ≤ (hist.store n).rev)
    (hrange : hist.range n rv key rangeEnd = read ++ left) {last : KeyValue V}
    (hlast : read.getLast? = some last) :
    hist.range (n + 1) rv (last.1 ++ [0]) rangeEnd = left := by
  rw [History.range_succ h]
  have hsorted : (read ++ left).Pairwise fun kv kv' => kv.1 < kv'.1 := by
    rw [← hrange]
    exact Mvcc.rangeAt_sorted _ _
  rcases getLast?_eq_some_iff.1 hlast with ⟨front, rfl⟩
  rcases pairwise_append.1 hsorted with ⟨hread, hleft, hbetween⟩
  have hmemLast : last ∈ front ++ [last] := mem_append_right _ (mem_singleton_self _)
  have hmem : ∀ kv, kv ∈ front ++ [last] ++ left ↔
      InRange key rangeEnd kv.1 ∧ (hist.store n).getAt rv kv.1 = some kv.2 := by
    intro kv
    rw [← hrange]
    exact Mvcc.mem_rangeAt
  have hkey : key ≤ last.1 := ((hmem last).1 (mem_append_left _ hmemLast)).1.1
  apply Mvcc.eq_of_sorted_of_mem_iff (Mvcc.rangeAt_sorted _ _) hleft
  intro kv
  rw [Mvcc.mem_rangeAt]
  constructor
  · rintro ⟨⟨hle, hend⟩, hget⟩
    have hlt : last.1 < kv.1 := lt_iff_snoc_le.2 hle
    rcases mem_append.1 ((hmem kv).2 ⟨⟨hkey.trans hlt.le, hend⟩, hget⟩) with hkv | hkv
    · -- what was read is not after the last key
      rcases mem_append.1 hkv with hkv | hkv
      · have hlt' := (pairwise_append.1 hread).2.2 kv hkv last (mem_singleton_self _)
        exact absurd hlt (lt_asymm hlt')
      · rw [mem_singleton.1 hkv] at hlt
        exact absurd hlt (lt_irrefl _)
    · exact hkv
  · intro hkv
    rcases (hmem kv).1 (mem_append_right _ hkv) with ⟨⟨-, hend⟩, hget⟩
    exact ⟨⟨lt_iff_snoc_le.1 (hbetween last hmemLast kv hkv), hend⟩, hget⟩

/-- A request for a revision reads the present one, or the one it asks for. -/
def ReadsAt (hist : History V) (n : ℕ) (rev : ℤ) (rv : ℕ) : Prop :=
  rev = 0 ∧ rv = (hist.store n).rev ∨ rev = rv ∧ 0 < rv ∧ rv ≤ (hist.store n).rev

variable {rev : ℤ}

lemma ReadsAt.le (h : ReadsAt hist n rev rv) :
    rv ≤ (hist.store n).rev := by
  rcases h with ⟨-, rfl⟩ | ⟨-, -, hle⟩
  · exact le_rfl
  · exact hle

lemma ReadsAt.pos (h : ReadsAt hist n rev rv) : 0 < rv := by
  rcases h with ⟨-, rfl⟩ | ⟨-, hpos, -⟩
  · exact (hist.bounded n).1
  · exact hpos

lemma limit_pos (h : paging c opts = true) : 0 < opts.predicate.limit := by
  unfold paging at h
  rw [Bool.and_eq_true, decide_eq_true_eq] at h
  exact h.2

variable (c opts) in
lemma etcdGet_spec (h : ReadsAt hist n rev rv) (key rangeEnd : Bytes) :
    ∃ kvs left, hist.range n rv key rangeEnd = kvs ++ left ∧
      etcdGet (hist.store n) key rangeEnd
        (if paging c opts then opts.predicate.limit.toNat else 0) rev =
          some ⟨kvs, !left.isEmpty, (hist.range n rv key rangeEnd).length, (hist.store n).rev⟩ ∧
      (left ≠ [] → paging c opts = true ∧ (kvs.length : ℤ) = opts.predicate.limit) := by
  have hat : (if rev ≤ 0 then (hist.store n).rev else rev.toNat) = rv := by
    rcases h with ⟨rfl, rfl⟩ | ⟨rfl, hpos, -⟩
    · rfl
    · rw [if_neg (by omega), Int.toNat_natCast]
  unfold etcdGet
  rw [hat, if_neg (Nat.not_lt.2 h.le)]
  cases hpaging : paging c opts with
  | false =>
    refine ⟨_, [], (append_nil _).symm, rfl, fun hne => absurd rfl hne⟩
  | true =>
    have hpos := limit_pos hpaging
    have hlimit : opts.predicate.limit.toNat ≠ 0 := by omega
    refine ⟨_, _, (take_append_drop opts.predicate.limit.toNat _).symm, ?_, ?_⟩
    · rw [if_pos rfl, if_neg hlimit]
      congr 2
      rw [Bool.eq_iff_iff, decide_eq_true_eq, Bool.not_eq_true', isEmpty_eq_false_iff,
        Ne, drop_eq_nil_iff, not_le]
      rfl
    · intro hne
      rw [Ne, drop_eq_nil_iff, not_le] at hne
      rw [length_take, min_eq_left hne.le]
      exact ⟨rfl, by omega⟩

/-- What a call has read of the keys that were left for it, `read`, and what it leaves, `left`. -/
structure Read (c : Config V Obj T) (opts : ListOptions Obj T) (n rv : ℕ)
    (before : List (Item Obj)) (read left : List (KeyValue V)) (filled : Filled Obj) : Prop where
  decodes : ∀ kv ∈ read, c.decode kv.2.1 ≠ none
  items : filled.items = before ++ read.filterMap (itemOf c opts)
  returnedRV : filled.returnedRV = rv
  requests : n < filled.requests
  hasMore : filled.hasMore = true ↔ left ≠ []
  paged : left ≠ [] → paging c opts = true
  full : left ≠ [] → (filled.items.length : ℤ) = opts.predicate.limit ∧
    ∃ last, read.getLast? = some last ∧ filled.lastKey = last.1
  count : opts.predicate.empty = true → before = [] → left ≠ [] →
    filled.count = read.length + left.length

lemma validateMinimumResourceVersion_mono {r r' : ℕ} (hle : r ≤ r')
    (h : validateMinimumResourceVersion opts r = .ok ()) :
    validateMinimumResourceVersion opts r' = .ok () := by
  unfold validateMinimumResourceVersion at h ⊢
  split_ifs at h with hnil
  · rw [if_pos hnil]
  rw [if_neg hnil]
  cases hparse : parseResourceVersion opts.resourceVersion with
  | none =>
    rw [hparse] at h
    cases h
  | some minimumRV =>
    rw [hparse] at h
    dsimp only at h ⊢
    split at h
    · cases h
    · rename_i hmin
      rw [if_neg (by omega)]

/-- With an empty predicate every object is an item. -/
lemma length_filterMap_itemOf (hempty : opts.predicate.empty = true) {kvs : List (KeyValue V)}
    (hdecodes : ∀ kv ∈ kvs, c.decode kv.2.1 ≠ none) :
    (kvs.filterMap (itemOf c opts)).length = kvs.length := by
  induction kvs with
  | nil => rfl
  | cons kv kvs ih =>
    rcases ne_none_iff_exists'.1 (hdecodes kv mem_cons_self) with ⟨obj, hobj⟩
    have hitem : itemOf c opts kv = some ⟨kv.1, obj, kv.2.2⟩ := by
      unfold itemOf
      rw [hobj]
      exact if_pos (opts.predicate.matchesObj_of_empty hempty obj kv.2.2)
    rw [filterMap_cons_some hitem, length_cons, length_cons,
      ih (forall_mem_cons.1 hdecodes).2]

lemma Read.of_scanned {rest : List (KeyValue V)}
    (hitems : paging c opts = true → (items.length : ℤ) < opts.predicate.limit)
    (hleft : left ≠ [] → paging c opts = true) (h : Scanned c opts items lastKey read rest result)
    {count : ℕ} (hcount : count = (read ++ rest ++ left).length)
    (hdone : (!(!left.isEmpty || result.2.2) || !paging c opts ||
      decide (opts.predicate.limit ≤ result.1.length)) = true) :
    Read c opts n rv items read (rest ++ left)
      ⟨result.1, result.2.1, !left.isEmpty || result.2.2, rv, count, n + 1⟩ := by
  have hmore : (!left.isEmpty || result.2.2) = true ↔ rest ++ left ≠ [] := by
    rw [Bool.or_eq_true, h.full, Bool.not_eq_true', isEmpty_eq_false_iff, Ne, Ne, Ne,
      append_eq_nil_iff]
    tauto
  have hpaged : rest ++ left ≠ [] → paging c opts = true := by
    intro hne
    by_cases hnil : left = []
    · rw [hnil, append_nil] at hne
      exact (h.enough hne).1
    · exact hleft hnil
  refine ⟨h.decodes, h.items, rfl, Nat.lt_succ_self n, hmore, hpaged, ?_, ?_⟩
  · intro hne
    have hpaging := hpaged hne
    rw [hmore.2 hne, hpaging] at hdone
    have hlimit : opts.predicate.limit ≤ result.1.length := by simpa using hdone
    have hbound := h.bound hpaging (hitems hpaging).le
    refine ⟨by dsimp only; omega, ?_⟩
    cases hlast : read.getLast? with
    | none =>
      -- nothing was read, so there are not enough items
      have hnil := getLast?_eq_none_iff.1 hlast
      have hsame := h.items
      rw [hnil, filterMap_nil, append_nil] at hsame
      have hlt := hitems hpaging
      rw [hsame] at hlimit
      omega
    | some last =>
      refine ⟨last, rfl, ?_⟩
      rw [h.lastKey, hlast]
      rfl
  · intro _ _ _
    rw [hcount]
    simp only [length_append]
    omega

/-- A response that is not the last one, and those after it. -/
lemma Read.append {m : ℕ} {kvs : List (KeyValue V)} {filled : Filled Obj}
    (hscanned : Scanned c opts items lastKey kvs [] result)
    (hlen : (kvs.length : ℤ) = opts.predicate.limit)
    (hnot : (result.1.length : ℤ) < opts.predicate.limit) (hnm : n ≤ m)
    (h : Read c opts m rv result.1 read left filled) :
    Read c opts n rv items (kvs ++ read) left filled := by
  refine ⟨?_, ?_, h.returnedRV, hnm.trans_lt h.requests, h.hasMore, h.paged, ?_, ?_⟩
  · exact forall_mem_append.2 ⟨hscanned.decodes, h.decodes⟩
  · rw [h.items, hscanned.items, filterMap_append, append_assoc]
  · intro hne
    rcases h.full hne with ⟨hfull, last, hlast, hkey⟩
    refine ⟨hfull, last, ?_, hkey⟩
    rw [getLast?_append, hlast]
    rfl
  · -- an empty predicate takes everything, so the first response is enough
    intro hempty hnil _
    have hitems := hscanned.items
    rw [hnil, nil_append] at hitems
    rw [hitems, length_filterMap_itemOf hempty hscanned.decodes] at hnot
    omega

/-- The loop over requests, with more fuel than there are keys to read. -/
theorem chunks_spec {rangeEnd : Bytes} {fuel : ℕ} {key : Bytes} (hreads : ReadsAt hist n rev rv)
    (hmin : validateMinimumResourceVersion opts (hist.store n).rev = .ok ())
    (hitems : paging c opts = true → (items.length : ℤ) < opts.predicate.limit)
    (hfuel : (hist.range n rv key rangeEnd).length < fuel) :
    (∃ kv ∈ hist.range n rv key rangeEnd, c.decode kv.2.1 = none ∧
      chunks c hist opts rangeEnd fuel n key rev rev items lastKey =
        some (.error (.undecodable kv.1))) ∨
    ∃ read left filled, hist.range n rv key rangeEnd = read ++ left ∧
      chunks c hist opts rangeEnd fuel n key rev rev items lastKey = some (.ok filled) ∧
      Read c opts n rv items read left filled := by
  induction fuel generalizing n key lastKey rev items with
  | zero => exact absurd hfuel (Nat.not_lt_zero _)
  | succ fuel ih =>
    rcases etcdGet_spec c opts hreads key rangeEnd with
      ⟨kvs, left, hrange, hget, hleft⟩
    have hresults : ¬ (kvs.isEmpty && !left.isEmpty) = true := by
      intro h
      rw [Bool.and_eq_true, List.isEmpty_iff, Bool.not_eq_true', isEmpty_eq_false_iff] at h
      rcases hleft h.2 with ⟨hpaging, hlen⟩
      have hpos := limit_pos hpaging
      rw [h.1, length_nil] at hlen
      omega
    rw [chunks, hget]
    dsimp only
    rw [hmin]
    rw [if_neg hresults]
    have hscan := scan_spec c opts kvs items lastKey
    cases hresult : scan c opts kvs items lastKey with
    | error err =>
      rw [hresult] at hscan
      rcases hscan with ⟨kv, hkv, hdecode, rfl⟩
      exact Or.inl ⟨kv, by rw [hrange]; exact mem_append_left _ hkv, hdecode, rfl⟩
    | ok result =>
      rw [hresult] at hscan
      rcases hscan with ⟨read, rest, rfl, hscanned⟩
      have hret : (if rev = 0 then ((hist.store n).rev : ℤ) else rev) = rv := by
        rcases hreads with ⟨rfl, rfl⟩ | ⟨rfl, hpos, -⟩
        · rfl
        · exact if_neg (by omega)
      dsimp only
      rw [hret]
      split
      · rename_i hdone
        refine Or.inr ⟨read, rest ++ left, _, by rw [hrange, append_assoc], rfl, ?_⟩
        exact Read.of_scanned hitems (fun hne => (hleft hne).1) hscanned
          (congrArg List.length hrange) hdone
      rename_i hdone
      simp only [Bool.or_eq_true, Bool.not_eq_true', decide_eq_true_eq, not_or, not_le,
        Bool.not_eq_false, Bool.or_eq_false_iff, not_and_or] at hdone
      rcases hdone with ⟨⟨hmore, hpaging⟩, hnot⟩
      -- the whole response was read, and there is more
      have hrest : rest = [] := by
        by_contra hne
        exact absurd (hscanned.enough hne).2 (not_le.2 hnot)
      subst hrest
      have hne : left ≠ [] := by
        rcases hmore with hmore | hmore
        · exact isEmpty_eq_false_iff.1 hmore
        · exact absurd rfl (hscanned.full.1 hmore)
      rcases hleft hne with ⟨-, hlen⟩
      rw [append_nil] at hrange hlen
      have hread : read ≠ [] := by
        rintro rfl
        rw [length_nil] at hlen
        omega
      rcases getLast?_isSome.2 hread |> isSome_iff_exists.1 with ⟨last, hlast⟩
      have hlastKey : result.2.1 = last.1 := by
        rw [hscanned.lastKey, hlast]
        rfl
      have hresume := History.range_resume hreads.le hrange hlast
      have hreads' : ReadsAt hist (n + 1) rv rv :=
        Or.inr ⟨rfl, hreads.pos, hreads.le.trans (hist.rev_le n)⟩
      have hmin' := validateMinimumResourceVersion_mono (hist.rev_le n) hmin
      have hwith : (if rev = 0 then (rv : ℤ) else rev) = rv := by
        rcases hreads with ⟨rfl, rfl⟩ | ⟨rfl, hpos, -⟩
        · rfl
        · exact if_neg (by omega)
      have hfuel' : (hist.range (n + 1) rv (last.1 ++ [0]) rangeEnd).length < fuel := by
        rw [hrange, length_append] at hfuel
        rw [hresume]
        omega
      -- the next request starts right after the last key, at the version of the first one
      rw [hwith, hlastKey]
      rcases @ih _ last.1 _ _ _ hreads' hmin' (fun _ => hnot) hfuel' with
        ⟨kv, hkv, hdecode, herr⟩ | ⟨read', left', filled, hrange', hok, hread'⟩
      · rw [hresume] at hkv
        exact Or.inl ⟨kv, by rw [hrange]; exact mem_append_right _ hkv, hdecode, herr⟩
      · rw [hresume] at hrange'
        refine Or.inr ⟨read ++ read', left', filled, ?_, hok, ?_⟩
        · rw [hrange, hrange', append_assoc]
        · exact Read.append hscanned hlen hnot (Nat.le_succ n) hread'

end

end Kubernetes.Apiserver.EtcdList
