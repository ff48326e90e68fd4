import Mathlib.Logic.Function.Basic
import Nmas.Text.Str

/-!
Owns: a device's intent as a document, and what a path of keys finds and writes in it
(`get_path` and `set_path` of `bulk_intent.py`).

A step into a document is the same for a mapping and for a list addressed by name, so the
facts about paths rest on `Replaced` alone: what one written key leaves of the rest.
-/

namespace Nmas.Nsot.BulkIntent

open Nmas.Text List Option
open Function

/-- A text, a truth value, or a number or null as `_norm` writes it. -/
inductive Scalar where
  | text (text : Str)
  | truth (value : Bool)
  | other (written : Str)
deriving DecidableEq

/-- A document. A mapping is what it holds at each key, so two mappings are one where they
hold the same in any order, as `_norm` compares them. -/
inductive Doc where
  | scalar (value : Scalar)
  | list (items : List Doc)
  | dict (entry : Str → Option Doc)

/-- `{}`. -/
def Doc.empty : Doc := .dict (fun _ => none)

def marker : Str := "__absent__".ascii

def nameKey : Str := "name".ascii

def absent : Doc := .dict (fun key => if key = marker then some (.scalar (.truth true)) else none)

def isAbsent : Doc → Bool
  | .dict entry =>
    match entry marker with
    | some (.scalar (.truth true)) => true
    | _ => false
  | _ => false

/-- An item of a list that `key` addresses. -/
def isNamed (key : Str) : Doc → Bool
  | .dict entry =>
    match entry nameKey with
    | some (.scalar (.text name)) => decide (name = key)
    | _ => false
  | _ => false

def getPath : Doc → List Str → Doc
  | doc, [] => doc
  | .dict entry, key :: path =>
    match entry key with
    | none => absent
    | some node => getPath node path
  | .list items, key :: path =>
    match items.find? (isNamed key) with
    | none => absent
    | some node => if isAbsent node then absent else getPath node path
  | .scalar _, _ :: _ => absent

/-- What a step writes: nothing where it deletes. -/
def written (value : Doc) : Option Doc := if isAbsent value then none else some value

/-- The first item `key` addresses changed, the others left. -/
def amendNamed (key : Str) (change : Doc → Option Doc) : List Doc → Option (List Doc)
  | [] => none
  | item :: items =>
    if isNamed key item then (change item).map (· :: items)
    else (amendNamed key change items).map (item :: ·)

/-- The document with a value written at a path; `none` where the source returns `False`.
A missing level of a mapping is made, also on the way to a deletion. -/
def setPath : Doc → List Str → Doc → Option Doc
  | .dict entry, [leaf], value => some (.dict (update entry leaf (written value)))
  | .dict entry, key :: next :: path, value =>
    (setPath ((entry key).getD .empty) (next :: path) value).map
      (fun node => .dict (update entry key (some node)))
  | .list items, key :: next :: path, value =>
    (amendNamed key (fun item => setPath item (next :: path) value) items).map .list
  | _, _, _ => none

/-! ### One step into a document -/

def child : Doc → Str → Option Doc
  | .dict entry, key => entry key
  | .list items, key =>
    (items.find? (isNamed key)).bind (fun node => if isAbsent node then none else some node)
  | .scalar _, _ => none

/-- What a document holds at a path; `none` where `get_path` finds `ABSENT`. -/
def held : Doc → List Str → Option Doc
  | doc, [] => some doc
  | doc, key :: path => (child doc key).bind (held · path)

def isList : Doc → Bool
  | .list _ => true
  | _ => false

/-- The item a key addresses carries the marker, so `get_path` takes it as absent. -/
def hides : Doc → Str → Bool
  | .list items, key => (items.find? (isNamed key)).any isAbsent
  | _, _ => false

/-- A walk of the path goes through a list item that carries the marker, or ends at what a
list item is found by: its name or the marker. -/
def strays : Doc → List Str → Bool
  | _, [] => false
  | doc, key :: path =>
    (isList doc && (decide (path = [nameKey]) || decide (path = [marker]))) ||
      hides doc key || (child doc key).any (strays · path)

variable {doc after node : Doc} {key leaf next : Str} {path : List Str} {value : Doc}

theorem held_cons : held doc (key :: path) = (child doc key).bind (held · path) := rfl

theorem held_append {further : List Str} :
    held doc (path ++ further) = (held doc path).bind (held · further) := by
  induction path generalizing doc with
  | nil => rfl
  | cons key path ih =>
    rw [cons_append, held_cons, held_cons, bind_assoc]
    congr 1
    funext node
    exact ih

theorem strays_empty : strays .empty path = false := by
  cases path <;> rfl

/-- `after` is `doc` with `node` under one key. -/
structure Replaced (doc : Doc) (key : Str) (node : Option Doc) (after : Doc) : Prop where
  here : child after key = node
  others : ∀ other, other ≠ key → child after other = child doc other
  hidden : ∀ other, hides after other = hides doc other
  kind : isList after = isList doc
  same : child doc key = node → after = doc

theorem replaced_dict {entry : Str → Option Doc} {node : Option Doc} :
    Replaced (.dict entry) key node (.dict (update entry key node)) where
  here := by simp [child]
  others := fun other isOther => by simp [child, isOther]
  hidden := fun _ => rfl
  kind := rfl
  same := by
    intro isEntry
    have isNode : node = entry key := isEntry.symm
    rw [isNode, update_eq_self]

theorem isNamed_unique {other : Str} (named : isNamed key doc)
    (otherNamed : isNamed other doc) : key = other := by
  cases doc with
  | scalar value | list items => cases named
  | dict entry =>
    unfold isNamed at named otherNamed
    cases isEntry : entry nameKey with
    | none => simp [isEntry] at named
    | some held =>
      cases held with
      | list items | dict inner => simp [isEntry] at named
      | scalar value =>
        cases value with
        | truth value | other written => simp [isEntry] at named
        | text name =>
          simp only [isEntry, decide_eq_true_eq] at named otherNamed
          exact named.symm.trans otherNamed

theorem amendNamed_spec {change : Doc → Option Doc} {items changed : List Doc}
    (isSet : amendNamed key change items = some changed)
    (keeps : ∀ node after, items.find? (isNamed key) = some node → change node = some after →
      isNamed key after) :
    ∃ node after, items.find? (isNamed key) = some node ∧ change node = some after ∧
      changed.find? (isNamed key) = some after ∧
      (∀ other, other ≠ key → changed.find? (isNamed other) = items.find? (isNamed other)) ∧
      (after = node → changed = items) := by
  induction items generalizing changed with
  | nil => cases isSet
  | cons item items ih =>
    by_cases named : isNamed key item = true
    · have isFound : (item :: items).find? (isNamed key) = some item := List.find?_cons_of_pos named
      rw [amendNamed, if_pos named] at isSet
      obtain ⟨after, isAfter, isChanged⟩ := map_eq_some_iff.mp isSet
      have stillNamed := keeps item after isFound isAfter
      subst isChanged
      refine ⟨item, after, isFound, isAfter, List.find?_cons_of_pos stillNamed, ?_, ?_⟩
      · intro other isOther
        have before : ¬ isNamed other item :=
          fun otherNamed => isOther (isNamed_unique otherNamed named)
        have later : ¬ isNamed other after :=
          fun otherNamed => isOther (isNamed_unique otherNamed stillNamed)
        rw [List.find?_cons_of_neg before, List.find?_cons_of_neg later]
      · intro isItem
        rw [isItem]
    · rw [amendNamed, if_neg named] at isSet
      obtain ⟨rest, isRest, isChanged⟩ := map_eq_some_iff.mp isSet
      subst isChanged
      have past : (item :: items).find? (isNamed key) = items.find? (isNamed key) :=
        List.find?_cons_of_neg named
      rw [past] at keeps ⊢
      obtain ⟨node, after, isFound, isAfter, here, others, same⟩ := ih isRest keeps
      refine ⟨node, after, isFound, isAfter, ?_, ?_, ?_⟩
      · rw [List.find?_cons_of_neg named, here]
      · intro other isOther
        rw [List.find?_cons, List.find?_cons, others other isOther]
      · intro isNode
        rw [same isNode]

theorem not_scalar_of_setPath {scalar : Scalar} :
    setPath doc path value ≠ some (.scalar scalar) := by
  intro isSet
  cases doc with
  | scalar held => cases path <;> simp [setPath] at isSet
  | dict entry | list items =>
    cases path with
    | nil => simp [setPath] at isSet
    | cons key path => cases path <;> simp [setPath] at isSet

theorem isNamed_dict {entry other : Str → Option Doc} (same : other nameKey = entry nameKey) :
    isNamed key (.dict other) = isNamed key (.dict entry) := by
  simp only [isNamed, same]

theorem isAbsent_dict {entry other : Str → Option Doc} (same : other marker = entry marker) :
    isAbsent (.dict other) = isAbsent (.dict entry) := by
  simp only [isAbsent, same]

theorem setPath_keeps (isSet : setPath node (next :: path) value = some after)
    (notName : next :: path ≠ [nameKey]) (notMarker : next :: path ≠ [marker])
    (named : isNamed key node) (shown : isAbsent node = false) :
    isNamed key after ∧ isAbsent after = false := by
  cases node with
  | scalar held | list items => cases named
  | dict entry =>
    cases path with
    | nil =>
      have isAfter := Option.some.inj isSet
      have nextName : nameKey ≠ next := fun isNext => notName (by rw [isNext])
      have nextMarker : marker ≠ next := fun isNext => notMarker (by rw [isNext])
      rw [← isAfter, isNamed_dict (update_of_ne nextName _ entry),
        isAbsent_dict (update_of_ne nextMarker _ entry)]
      exact ⟨named, shown⟩
    | cons further path =>
      rw [setPath] at isSet
      obtain ⟨below, isBelow, isAfter⟩ := map_eq_some_iff.mp isSet
      rw [← isAfter]
      constructor
      · by_cases isName : nameKey = next
        · -- the name is a text, and nothing is written below a text
          cases isEntry : entry next with
          | none => simp [isNamed, isName, isEntry] at named
          | some held =>
            rw [isEntry] at isBelow
            cases held with
            | scalar value => cases isBelow
            | list items | dict inner => simp [isNamed, isName, isEntry] at named
        · rw [isNamed_dict (update_of_ne isName _ entry)]
          exact named
      · by_cases isMarker : marker = next
        · have isEntry : update entry next (some below) marker = some below := by
            rw [isMarker, update_self]
          cases below with
          | scalar scalar => exact absurd isBelow not_scalar_of_setPath
          | list items | dict inner => simp only [isAbsent, isEntry]
        · rw [isAbsent_dict (update_of_ne isMarker _ entry)]
          exact shown

/-! ### The step a written path takes -/

theorem setPath_leaf (isSet : setPath doc [leaf] value = some after) :
    Replaced doc leaf (written value) after := by
  cases doc with
  | scalar held | list items => cases isSet
  | dict entry =>
    rw [← Option.some.inj isSet]
    exact replaced_dict

theorem setPath_step (isSet : setPath doc (key :: next :: path) value = some after)
    (stays : strays doc (key :: next :: path) = false) :
    ∃ node, setPath ((child doc key).getD .empty) (next :: path) value = some node ∧
      Replaced doc key (some node) after := by
  cases doc with
  | scalar held => cases isSet
  | dict entry =>
    rw [setPath] at isSet
    obtain ⟨node, isNode, isAfter⟩ := map_eq_some_iff.mp isSet
    rw [← isAfter]
    exact ⟨node, isNode, replaced_dict⟩
  | list items =>
    rw [setPath] at isSet
    obtain ⟨changed, isChanged, isAfter⟩ := map_eq_some_iff.mp isSet
    rw [strays] at stays
    simp only [isList, Bool.true_and, Bool.or_eq_false_iff, decide_eq_false_iff_not] at stays
    obtain ⟨⟨⟨notName, notMarker⟩, shown⟩, -⟩ := stays
    have shownItem : ∀ item, items.find? (isNamed key) = some item → isAbsent item = false := by
      intro item isFound
      simpa [hides, isFound] using shown
    have keeps : ∀ item changed, items.find? (isNamed key) = some item →
        setPath item (next :: path) value = some changed →
          isNamed key changed = true ∧ isAbsent changed = false := by
      intro item changed isFound isWritten
      exact setPath_keeps isWritten notName notMarker (List.find?_some isFound)
        (shownItem item isFound)
    obtain ⟨item, node, isFound, isNode, here, others, same⟩ := amendNamed_spec isChanged
      (fun item changed isFound isWritten => (keeps item changed isFound isWritten).1)
    have isChild : child (.list items) key = some item := by
      simp [child, isFound, shownItem item isFound]
    have nodeShown := (keeps item node isFound isNode).2
    rw [← isAfter]
    refine ⟨node, ?_, ?_, ?_, ?_, rfl, ?_⟩
    · rw [isChild]
      exact isNode
    · simp [child, here, nodeShown]
    · intro other isOther
      simp only [child, others other isOther]
    · intro other
      by_cases isOther : other = key
      · simp [hides, isOther, here, isFound, nodeShown, shownItem item isFound]
      · simp only [hides, others other isOther]
    · intro isSame
      rw [isChild] at isSame
      rw [same (Option.some.inj isSame).symm]

/-! ### What a written path leaves -/

/-- Neither path is at or above the other. -/
def Apart (path other : List Str) : Prop := ¬ path <+: other ∧ ¬ other <+: path

theorem Apart.tail {other : List Str} (apart : Apart (key :: path) (key :: other)) :
    Apart path other :=
  ⟨fun isPrefix => apart.1 (cons_prefix_cons.mpr ⟨rfl, isPrefix⟩),
    fun isPrefix => apart.2 (cons_prefix_cons.mpr ⟨rfl, isPrefix⟩)⟩

theorem strays_child (stays : strays doc (key :: path) = false) :
    strays ((child doc key).getD .empty) path = false := by
  cases isChild : child doc key with
  | none => exact strays_empty
  | some node =>
    rw [strays, isChild] at stays
    exact (Bool.or_eq_false_iff.mp stays).2

theorem setPath_nil : setPath doc [] value = none := by
  cases doc <;> rfl

theorem held_setPath (isSet : setPath doc path value = some after)
    (stays : strays doc path = false) (further : List Str) :
    held after (path ++ further) = (written value).bind (held · further) := by
  induction path generalizing doc after with
  | nil =>
    rw [setPath_nil] at isSet
    cases isSet
  | cons key path ih =>
    cases path with
    | nil => rw [cons_append, held_cons, (setPath_leaf isSet).here, nil_append]
    | cons next path =>
      obtain ⟨node, isNode, replaced⟩ := setPath_step isSet stays
      rw [cons_append, held_cons, replaced.here, bind_some]
      exact ih isNode (strays_child stays)

theorem held_setPath_apart {other : List Str} (isSet : setPath doc path value = some after)
    (stays : strays doc path = false) (apart : Apart other path) :
    held after other = held doc other := by
  induction path generalizing doc after other with
  | nil =>
    rw [setPath_nil] at isSet
    cases isSet
  | cons key path ih =>
    cases other with
    | nil => exact absurd (List.nil_prefix) apart.1
    | cons first other =>
      rw [held_cons, held_cons]
      cases path with
      | nil =>
        by_cases isKey : first = key
        · rw [isKey] at apart
          exact absurd (cons_prefix_cons.mpr ⟨rfl, nil_prefix⟩) apart.2
        · rw [(setPath_leaf isSet).others first isKey]
      | cons next path =>
        obtain ⟨node, isNode, replaced⟩ := setPath_step isSet stays
        by_cases isKey : first = key
        · rw [isKey] at apart ⊢
          have below := ih isNode (strays_child stays) apart.tail
          rw [replaced.here, bind_some, below]
          cases isChild : child doc key with
          | some inner => rfl
          | none =>
            cases other with
            | nil => exact absurd (cons_prefix_cons.mpr ⟨rfl, nil_prefix⟩) apart.1
            | cons further other => rfl
        · rw [replaced.others first isKey]

theorem held_setPath_above {above : List Str} (isSet : setPath doc path value = some after)
    (stays : strays doc path = false) (isPrefix : above <+: path) (isAbove : above ≠ path) :
    (held after above).isSome := by
  induction path generalizing doc after above with
  | nil =>
    rw [setPath_nil] at isSet
    cases isSet
  | cons key path ih =>
    cases above with
    | nil => rfl
    | cons first above =>
      obtain ⟨isKey, isPrefix⟩ := cons_prefix_cons.mp isPrefix
      rw [isKey] at isAbove ⊢
      cases path with
      | nil => exact absurd (by rw [prefix_nil.mp isPrefix]) isAbove
      | cons next path =>
        obtain ⟨node, isNode, replaced⟩ := setPath_step isSet stays
        rw [held_cons, replaced.here, bind_some]
        exact ih isNode (strays_child stays) isPrefix (fun isPath => isAbove (by rw [isPath]))

theorem setPath_same (isSet : setPath doc path value = some after)
    (stays : strays doc path = false) (isHeld : held doc path = written value)
    (reached : ∀ above, above <+: path → above ≠ path → (held doc above).isSome) :
    after = doc := by
  induction path generalizing doc after with
  | nil =>
    rw [setPath_nil] at isSet
    cases isSet
  | cons key path ih =>
    cases path with
    | nil =>
      refine (setPath_leaf isSet).same ?_
      rw [held_cons] at isHeld
      rw [← isHeld]
      cases child doc key <;> rfl
    | cons next path =>
      obtain ⟨node, isNode, replaced⟩ := setPath_step isSet stays
      have there := reached [key] (cons_prefix_cons.mpr ⟨rfl, nil_prefix⟩) (by simp)
      obtain ⟨inner, isInner⟩ : ∃ inner, child doc key = some inner := by
        refine isSome_iff_exists.mp ?_
        rw [held_cons] at there
        cases isChild : child doc key with
        | none => simp [isChild] at there
        | some inner => rfl
      have staysInner := strays_child stays
      rw [isInner, getD_some] at isNode staysInner
      refine replaced.same ?_
      rw [isInner]
      congr 1
      refine (ih isNode staysInner ?_ ?_).symm
      · rw [held_cons, isInner, bind_some] at isHeld
        exact isHeld
      · intro above isPrefix isAbove
        have there := reached (key :: above) (cons_prefix_cons.mpr ⟨rfl, isPrefix⟩)
          (fun isPath => isAbove (List.cons.inj isPath).2)
        rw [held_cons, isInner, bind_some] at there
        exact there

theorem strays_setPath {other : List Str} (isSet : setPath doc path value = some after)
    (stays : strays doc path = false) (astray : strays after other) :
    strays doc other ∨
      ∃ further node, other = path ++ further ∧ written value = some node ∧
        strays node further := by
  induction path generalizing doc after other with
  | nil =>
    rw [setPath_nil] at isSet
    cases isSet
  | cons key path ih =>
    cases other with
    | nil => cases after <;> cases astray
    | cons first other =>
      have outside {node : Option Doc} (replaced : Replaced doc key node after)
          (isOther : first ≠ key ∨ (child after first).any (strays · other) = false) :
          strays doc (first :: other) = true := by
        rw [strays, replaced.kind, replaced.hidden] at astray
        rw [strays]
        rcases isOther with isOther | none
        · rw [replaced.others first isOther] at astray
          exact astray
        · rw [none, Bool.or_false] at astray
          rw [astray, Bool.true_or]
      by_cases isKey : first = key
      · subst isKey
        cases path with
        | nil =>
          have replaced := setPath_leaf isSet
          cases isWritten : written value with
          | none =>
            refine .inl (outside replaced (.inr ?_))
            rw [replaced.here, isWritten]
            rfl
          | some node =>
            by_cases below : strays node other = true
            · exact .inr ⟨other, node, rfl, rfl, below⟩
            · refine .inl (outside replaced (.inr ?_))
              rw [replaced.here, isWritten]
              simpa using below
        | cons next path =>
          obtain ⟨node, isNode, replaced⟩ := setPath_step isSet stays
          by_cases below : strays node other = true
          · rcases ih isNode (strays_child stays) below with
              before | ⟨further, inner, isOther, isWritten, astray⟩
            · left
              cases isChild : child doc first with
              | none =>
                rw [isChild, getD_none, strays_empty] at before
                cases before
              | some inner =>
                rw [isChild, getD_some] at before
                rw [strays, isChild, any_some, before, Bool.or_true]
            · exact .inr ⟨further, inner, by rw [isOther]; rfl, isWritten, astray⟩
          · refine .inl (outside replaced (.inr ?_))
            rw [replaced.here]
            simpa using below
      · cases path with
        | nil => exact .inl (outside (setPath_leaf isSet) (.inl isKey))
        | cons next path =>
          obtain ⟨node, -, replaced⟩ := setPath_step isSet stays
          exact .inl (outside replaced (.inl isKey))

end Nmas.Nsot.BulkIntent
