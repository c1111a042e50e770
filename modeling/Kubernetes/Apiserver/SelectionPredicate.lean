import Kubernetes.GoMap

/-! # What a watch selects

A model of `storage/selection_predicate.go`, of the field selectors of
`apimachinery/pkg/fields/selector.go`, and of `filterWithAttrsFunction` in `cacher.go`: a watch
selects the objects below a path whose labels and fields match.

`requiresExactMatch` reads from a field selector that it requires a value of a field; what it
returns is what every matching object has there (`requiresExactMatch_sound`). The cacher relies
on this to route events to watchers by the value of an indexed field.
-/

namespace Kubernetes.Apiserver

/-- `labels.Set`. -/
abbrev Labels := GoMap String String

/-- `fields.Set`. -/
abbrev Fields := GoMap String String

/-- `Set.Get`: a missing field reads as the empty string. -/
def Fields.get (f : Fields) (field : String) : String := (f.lookup field).getD ""

/-- The kinds of `fields.Selector`. -/
inductive FieldSelector where
  | nothing
  | hasTerm (field value : String)
  | notHasTerm (field value : String)
  | andTerm (terms : List FieldSelector)

mutual

def FieldSelector.matches : FieldSelector → Fields → Bool
  | .nothing, _ => false
  | .hasTerm field value, ls => Fields.get ls field == value
  | .notHasTerm field value, ls => Fields.get ls field != value
  | .andTerm terms, ls => FieldSelector.matchesAll terms ls

/-- The loop of `andTerm.Matches`. -/
def FieldSelector.matchesAll : List FieldSelector → Fields → Bool
  | [], _ => true
  | q :: terms, ls => FieldSelector.matches q ls && FieldSelector.matchesAll terms ls

end

namespace FieldSelector

mutual

def empty : FieldSelector → Bool
  | .nothing => false
  | .hasTerm _ _ => false
  | .notHasTerm _ _ => false
  | .andTerm terms => emptyAll terms

/-- The loop of `andTerm.Empty`. -/
def emptyAll : List FieldSelector → Bool
  | [] => true
  | q :: terms => empty q && emptyAll terms

end

mutual

def requiresExactMatch : FieldSelector → String → Option String
  | .nothing, _ => none
  | .hasTerm f value, field => if f = field then some value else none
  | .notHasTerm _ _, _ => none
  | .andTerm terms, field => requiresExactMatchAny terms field

/-- The loop of `andTerm.RequiresExactMatch`: the first term that requires a value. -/
def requiresExactMatchAny : List FieldSelector → String → Option String
  | [], _ => none
  | q :: terms, field =>
    match requiresExactMatch q field with
    | some value => some value
    | none => requiresExactMatchAny terms field

end

variable {ls : Fields}

mutual

theorem requiresExactMatch_sound {field value : String} :
    ∀ q : FieldSelector, q.requiresExactMatch field = some value → q.matches ls = true →
      Fields.get ls field = value
  | .nothing, h, _ => by
    rw [requiresExactMatch] at h
    cases h
  | .hasTerm f v, h, hmatch => by
    rw [requiresExactMatch] at h
    rw [FieldSelector.matches, beq_iff_eq] at hmatch
    split_ifs at h with hf
    cases h
    rw [← hf, hmatch]
  | .notHasTerm _ _, h, _ => by
    rw [requiresExactMatch] at h
    cases h
  | .andTerm terms, h, hmatch => by
    rw [requiresExactMatch] at h
    rw [FieldSelector.matches] at hmatch
    exact requiresExactMatchAny_sound terms h hmatch

theorem requiresExactMatchAny_sound {field value : String} :
    ∀ terms : List FieldSelector, requiresExactMatchAny terms field = some value →
      matchesAll terms ls = true → Fields.get ls field = value
  | [], h, _ => by
    rw [requiresExactMatchAny] at h
    cases h
  | q :: terms, h, hmatch => by
    rw [requiresExactMatchAny] at h
    rw [matchesAll, Bool.and_eq_true] at hmatch
    cases hq : q.requiresExactMatch field with
    | some v =>
      rw [hq] at h
      cases h
      exact requiresExactMatch_sound q hq hmatch.1
    | none =>
      rw [hq] at h
      exact requiresExactMatchAny_sound terms h hmatch.2

end

mutual

/-- A selector that selects everything requires nothing. -/
theorem matches_of_empty :
    ∀ q : FieldSelector, q.empty = true → q.matches ls = true
  | .nothing, h => by
    rw [empty] at h
    cases h
  | .hasTerm _ _, h => by
    rw [empty] at h
    cases h
  | .notHasTerm _ _, h => by
    rw [empty] at h
    cases h
  | .andTerm terms, h => by
    rw [empty] at h
    rw [FieldSelector.matches]
    exact matchesAll_of_empty terms h

theorem matchesAll_of_empty :
    ∀ terms : List FieldSelector, emptyAll terms = true → matchesAll terms ls = true
  | [], _ => by rw [matchesAll]
  | q :: terms, h => by
    rw [emptyAll, Bool.and_eq_true] at h
    rw [matchesAll, matches_of_empty q h.1, matchesAll_of_empty terms h.2]
    rfl

end

end FieldSelector

/-- `labels.Selector` is an interface; `Matches` and `Empty` are used. -/
structure LabelSelector where
  matchesLabels : Labels → Bool
  empty : Bool

/-- `SelectionPredicate`, as far as a watch uses it. -/
structure SelectionPredicate where
  label : LabelSelector
  field : FieldSelector
  indexFields : List String
  allowWatchBookmarks : Bool

def SelectionPredicate.matchesObjectAttributes (p : SelectionPredicate) (l : Labels)
    (f : Fields) : Bool :=
  if p.label.empty && p.field.empty then true
  else p.label.matchesLabels l && p.field.matches f

/-- `hasPathPrefix`: equality, or a leading part that ends at a path segment boundary. -/
def hasPathPrefix (s pathPrefix : String) : Bool :=
  let s := s.toList
  let pathPrefix := pathPrefix.toList
  if !pathPrefix.isPrefixOf s then false
  else if s.length = pathPrefix.length then true
  else if pathPrefix.getLast? = some '/' then true
  else s[pathPrefix.length]? == some '/'

/-- `filterWithAttrsFunc`. -/
abbrev Filter := String → Labels → Fields → Bool

def filterWithAttrsFunction (key : String) (p : SelectionPredicate) : Filter :=
  fun objKey label field =>
    if !hasPathPrefix objKey key then false
    else p.matchesObjectAttributes label field

lemma field_matches_of_filter {key objKey : String} {p : SelectionPredicate} {l : Labels}
    {f : Fields} (h : filterWithAttrsFunction key p objKey l f = true) :
    p.field.matches f = true := by
  unfold filterWithAttrsFunction SelectionPredicate.matchesObjectAttributes at h
  split at h
  · cases h
  split_ifs at h with hempty
  · rw [Bool.and_eq_true] at hempty
    exact FieldSelector.matches_of_empty p.field hempty.2
  · rw [Bool.and_eq_true] at h
    exact h.2

end Kubernetes.Apiserver
