import Mathlib.Data.List.Range
import Nmas.Heal.Decisions
import Nmas.Log.Buckets
import Nmas.Nsot.Sections
import Nmas.Text.Lines

/-!
Contract: `heal/kinds.py`'s departure of a device, and the units it is split into.

Owns: `departures`, `_stanzas` and `units_of`, and that the units partition the
departure exactly where a feature is single on both of its sides or on neither
(`units_partition`).

Does not own: what the parser says of a line, which is any `featureOf`.
-/

namespace Nmas.Heal

open Nmas.Text List
open Nmas.Log
open Nmas.Nsot
open Nmas.Nsot.Normalize

/-! ### The departure -/

section Departure

variable [Unicode]

def paths (text : Str) : List Key :=
  (configKeys text).foldl (fun out key => if key ∈ out then out else out ++ [key]) []

def stored (text : Str) : Str := joinLines (stripForRepo text)

structure Departures where
  missing : List Key
  added : List Key
  intentOnly : Nat
  goldenBehind : Nat
  goldenNotIntent : Nat
deriving DecidableEq

def departures (golden running intended : Str) : Departures :=
  let g := paths golden
  let r := paths (stored running)
  let i := paths intended
  { missing := g.filter (fun p => p ∈ i ∧ p ∉ r)
    added := r.filter (fun p => p ∉ g ∧ p ∉ i)
    intentOnly := i.countP (fun p => p ∉ g ∧ p ∉ r)
    goldenBehind := r.countP (fun p => p ∈ i ∧ p ∉ g)
    goldenNotIntent := g.countP (fun p => p ∉ i) }

theorem nodup_paths (text : Str) : (paths text).Nodup := by
  unfold paths
  generalize configKeys text = keys
  induction keys using List.reverseRec with
  | nil => exact nodup_nil
  | append_singleton keys key ih =>
    rw [foldl_append, foldl_cons, foldl_nil]
    split
    · exact ih
    · rename_i isNew
      exact nodup_append.mpr ⟨ih, nodup_singleton _, fun old isOld last isLast isSame =>
        isNew (by rwa [← mem_singleton.mp isLast, ← isSame])⟩

structure Departed (dep : Departures) : Prop where
  missing : dep.missing.Nodup
  added : dep.added.Nodup
  apart : dep.missing.Disjoint dep.added

theorem departed (golden running intended : Str) : Departed (departures golden running intended) where
  missing := (nodup_paths golden).filter _
  added := (nodup_paths _).filter _
  apart key isMissing isAdded := by
    have isGolden := (mem_filter.mp isMissing).1
    have notGolden := of_decide_eq_true (mem_filter.mp isAdded).2
    exact notGolden.1 isGolden

end Departure

/-! ### Stanzas and leaves -/

/-- Where a line stands, itself included. -/
def pathOf (entry : Key) : List Str := entry.1 ++ [entry.2]

/-- A departed header with the departed lines under it. -/
structure Stanza where
  head : List Str
  inner : List Key
deriving DecidableEq

/-- A header's own entry, `(head[:-1], head[-1])`. -/
def headerOf (head : List Str) : Key := (head.dropLast, head.getLastD [])

/-- `[(head[:-1], head[-1])] + inner`. -/
def Stanza.keys (stanza : Stanza) : List Key := headerOf stanza.head :: stanza.inner

/-- The first departed header a line is under: `next(c[:n] for n in .. if c[:n] in heads)`. -/
def topmost (heads : List (List Str)) (chain : List Str) : Option (List Str) :=
  ((List.range chain.length).find? (fun n => chain.take (n + 1) ∈ heads)).map
    (fun n => chain.take (n + 1))

/-- `stanzas.setdefault(head, [])`, and the lines appended to it. -/
def setStanza (stanzas : List Stanza) (item : List Str × Option Key) : List Stanza :=
  gather Stanza.head Prod.fst (fun item => ⟨item.1, item.2.toList⟩)
    (fun stanza item => { stanza with inner := stanza.inner ++ item.2.toList }) stanzas item

def stanzaItem (all : List Key) (entry : Key) : Option (List Str × Option Key) :=
  match topmost (all.map pathOf) entry.1 with
  | some top => some (top, some entry)
  | none =>
    if all.any (fun other => other.1.take (entry.1.length + 1) = pathOf entry) then
      some (pathOf entry, none)
    else none

/-- What the loop of `_stanzas` does of one line. -/
def stanzaStep (all : List Key) (found : List Stanza × List Key) (entry : Key) :
    List Stanza × List Key :=
  match stanzaItem all entry with
  | some item => (setStanza found.1 item, found.2)
  | none => (found.1, found.2 ++ [entry])

/-- `_stanzas`: `(stanzas, leaves)`. -/
def stanzas (all : List Key) : List Stanza × List Key := all.foldl (stanzaStep all) ([], [])

/-! ### Units -/

/-- A step into a parse: a key of a `dict`, or a place of a list. -/
inductive FeaturePart where
  | name (text : Str)
  | place (number : Int)
deriving DecidableEq

/-- `feature_of`'s answer. -/
structure FeatureAnswer where
  feature : List FeaturePart
  single : Bool
deriving DecidableEq

inductive Side where
  | add
  | remove
deriving DecidableEq

def Side.op : Side → UnitOp
  | .add => .add
  | .remove => .remove

/-- A unit of `units_of`. -/
structure DepartedUnit where
  op : UnitOp
  chain : List Str
  stanza : Bool
  feature : List FeaturePart
  single : Bool
  add : List Key
  remove : List Key
deriving DecidableEq

/-- `u["lines"]`. -/
def DepartedUnit.lines (unit : DepartedUnit) : List Str :=
  unit.add.map Prod.snd ++ unit.remove.map Prod.snd

/-- The lines of one feature on one section, as `groups` holds them. -/
structure LeafGroup where
  side : Side
  chain : List Str
  feature : List FeaturePart
  single : Bool
  lines : List Key
deriving DecidableEq

abbrev Place := Side × List Str × List FeaturePart

def LeafGroup.key (group : LeafGroup) : Place := (group.side, group.chain, group.feature)

section Units

variable (featureOf : List Str → Str → FeatureAnswer)

/-- The feature a leaf is grouped by: off an interface, a line of a multi-valued one is its
own. -/
def groupedBy (entry : Key) : FeatureAnswer :=
  let f := featureOf entry.1 entry.2
  if f.feature ≠ [] ∧ ¬ f.single ∧
      ¬ (entry.1 ≠ [] ∧ "interface ".ascii.isPrefixOf (entry.1.headD []) = true) then
    { f with feature := f.feature ++ [.name (strip entry.2)] }
  else f

def placeOf (leaf : Side × Key) : Place := (leaf.1, leaf.2.1, (groupedBy featureOf leaf.2).feature)

/-- `groups`. -/
def leafGroups (leaves : List (Side × Key)) : List LeafGroup :=
  leaves.foldl (gather LeafGroup.key (placeOf featureOf)
    (fun leaf => ⟨leaf.1, leaf.2.1, (groupedBy featureOf leaf.2).feature,
      (groupedBy featureOf leaf.2).single, [leaf.2]⟩)
    (fun group leaf => { group with lines := group.lines ++ [leaf.2] })) []

def mate (groups : List LeafGroup) (side : Side) (group : LeafGroup) : Option LeafGroup :=
  groups.find? (fun other => other.key = (side, group.chain, group.feature))

def LeafGroup.plain (group : LeafGroup) : DepartedUnit where
  op := group.side.op
  chain := group.chain
  stanza := false
  feature := group.feature
  single := group.single
  add := if group.side = .add then group.lines else []
  remove := if group.side = .remove then group.lines else []

/-- The unit a group is: none where it is in the change of its other side. -/
def leafUnit (groups : List LeafGroup) (group : LeafGroup) : Option DepartedUnit :=
  if group.side = .remove ∧ group.single ∧ (mate groups .add group).isSome then none
  else if group.side = .add ∧ group.single then
    match mate groups .remove group with
    | some other =>
      some { op := .change, chain := group.chain, stanza := false, feature := group.feature,
             single := true, add := group.lines, remove := other.lines }
    | none => some group.plain
  else some group.plain

def stanzaUnit (side : Side) (stanza : Stanza) : DepartedUnit :=
  { op := side.op, chain := (headerOf stanza.head).1, stanza := true
    feature := [.name "stanza".ascii, .name (headerOf stanza.head).2], single := false
    add := if side = .add then stanza.keys else []
    remove := if side = .remove then stanza.keys else [] }

def leavesOf (dep : Departures) : List (Side × Key) :=
  (stanzas dep.missing).2.map (Side.add, ·) ++ (stanzas dep.added).2.map (Side.remove, ·)

def unitsOf (dep : Departures) : List DepartedUnit :=
  let groups := leafGroups featureOf (leavesOf dep)
  (stanzas dep.missing).1.map (stanzaUnit .add) ++ (stanzas dep.added).1.map (stanzaUnit .remove) ++
    groups.filterMap (leafUnit groups)

/-- The units hold what departed, each line once. -/
structure Partitions (dep : Departures) (units : List DepartedUnit) : Prop where
  missing : (units.flatMap DepartedUnit.add).Perm dep.missing
  added : (units.flatMap DepartedUnit.remove).Perm dep.added
  missingOnce : (units.flatMap DepartedUnit.add).Nodup
  addedOnce : (units.flatMap DepartedUnit.remove).Nodup
  apart : (units.flatMap DepartedUnit.add).Disjoint (units.flatMap DepartedUnit.remove)

def firstOf (leaves : List (Side × Key)) (place : Place) : Option (Side × Key) :=
  leaves.find? (fun leaf => placeOf featureOf leaf = place)

/-- On each section, a feature with leaves on both sides is single for the first leaf of both or
of neither. -/
def SidesAgree (leaves : List (Side × Key)) : Prop :=
  ∀ chain feature missing added, firstOf featureOf leaves (.add, chain, feature) = some missing →
    firstOf featureOf leaves (.remove, chain, feature) = some added →
      (groupedBy featureOf missing.2).single = (groupedBy featureOf added.2).single

end Units

/-! ### Stanzas hold what is not a leaf -/

section Stanzas

variable {all : List Key} {entry : Key} {heads : List (List Str)} {chain top head : List Str}

theorem headerOf_pathOf (entry : Key) : headerOf (pathOf entry) = entry := by
  simp [headerOf, pathOf]

theorem pathOf_injective : Function.Injective pathOf := by
  intro one other isSame
  rw [← headerOf_pathOf one, isSame, headerOf_pathOf]

theorem topmost_some (isTop : topmost heads chain = some top) :
    top ∈ heads ∧ top <+: chain ∧ topmost heads top.dropLast = none := by
  obtain ⟨place, isFirst, rfl⟩ := Option.map_eq_some_iff.mp isTop
  obtain ⟨isHead, isWithin, noneBefore⟩ := List.find?_range_eq_some.mp isFirst
  rw [mem_range] at isWithin
  refine ⟨of_decide_eq_true isHead, take_prefix _ _, ?_⟩
  have isAbove : (chain.take (place + 1)).dropLast = chain.take place := by
    rw [dropLast_eq_take, length_take, take_take]
    congr 1
    omega
  rw [isAbove]
  unfold topmost
  rw [Option.map_eq_none_iff, List.find?_range_eq_none]
  intro earlier isEarlier
  rw [length_take] at isEarlier
  have isBefore : earlier < place := by omega
  have notHead := noneBefore earlier isBefore
  rwa [take_take, Nat.min_eq_left (by omega)]

theorem stanzaItem_header (isTop : topmost (all.map pathOf) entry.1 = some top)
    (isIn : entry ∈ all) : ∃ header ∈ all, pathOf header = top ∧
      stanzaItem all header = some (top, none) := by
  obtain ⟨isHead, isPrefix, noneAbove⟩ := topmost_some isTop
  obtain ⟨header, isHeader, rfl⟩ := mem_map.mp isHead
  refine ⟨header, isHeader, rfl, ?_⟩
  have isAbove : (pathOf header).dropLast = header.1 := by
    simp [pathOf]
  rw [isAbove] at noneAbove
  have isOver : entry.1.take (header.1.length + 1) = pathOf header := by
    have isTake := prefix_iff_eq_take.mp isPrefix
    have isLength : (pathOf header).length = header.1.length + 1 := by
      simp [pathOf]
    rw [isLength] at isTake
    exact isTake.symm
  unfold stanzaItem
  rw [noneAbove]
  exact if_pos (any_eq_true.mpr ⟨entry, isIn, decide_eq_true isOver⟩)

theorem stanzaItem_some {item : List Str × Option Key} (isItem : stanzaItem all entry = some item) :
    item = (pathOf entry, none) ∨
      topmost (all.map pathOf) entry.1 = some item.1 ∧ item.2 = some entry := by
  unfold stanzaItem at isItem
  split at isItem
  · rename_i top isTop
    cases isItem
    exact .inr ⟨isTop, rfl⟩
  · split at isItem
    · cases isItem
      exact .inl rfl
    · cases isItem

theorem foldl_stanzaStep (entries : List Key) (found : List Stanza × List Key) :
    entries.foldl (stanzaStep all) found =
      ((entries.filterMap (stanzaItem all)).foldl setStanza found.1,
        found.2 ++ entries.filter (fun entry => (stanzaItem all entry).isNone)) := by
  induction entries generalizing found with
  | nil => simp
  | cons entry rest ih =>
    rw [foldl_cons, ih]
    unfold stanzaStep
    cases isItem : stanzaItem all entry with
    | none | some item => simp [isItem]

theorem stanzas_fst : (stanzas all).1 = (all.filterMap (stanzaItem all)).foldl setStanza [] :=
  congrArg Prod.fst (foldl_stanzaStep all _)

theorem stanzas_snd : (stanzas all).2 =
    all.filter (fun entry => (stanzaItem all entry).isNone) := by
  have isLoop : (stanzas all).2 = [] ++ _ := congrArg Prod.snd (foldl_stanzaStep all _)
  exact isLoop

def isHeader (all : List Key) (entry : Key) : Bool := stanzaItem all entry = some (pathOf entry, none)

theorem heads_perm (distinct : all.Nodup) :
    ((stanzas all).1.map Stanza.head).Perm ((all.filter (isHeader all)).map pathOf) := by
  have gathered : Gathered Stanza.head Prod.fst
      (fun item : List Str × Option Key => ⟨item.1, item.2.toList⟩)
      (fun stanza item => { stanza with inner := stanza.inner ++ item.2.toList })
      (all.filterMap (stanzaItem all)) ((all.filterMap (stanzaItem all)).foldl setStanza []) :=
    gathered_foldl (by intro _; rfl) (by intro _ _; rfl) _
  rw [stanzas_fst]
  refine (perm_ext_iff_of_nodup gathered.distinct
    ((distinct.filter _).map pathOf_injective)).mpr fun head => ?_
  refine gathered.mem_keys.trans ?_
  constructor
  · rintro ⟨item, isItem, rfl⟩
    obtain ⟨entry, isIn, isEntry⟩ := mem_filterMap.mp isItem
    rcases stanzaItem_some isEntry with rfl | ⟨isTop, -⟩
    · exact mem_map.mpr ⟨entry, mem_filter.mpr ⟨isIn, decide_eq_true isEntry⟩, rfl⟩
    · obtain ⟨header, headerIn, isPath, isOwn⟩ := stanzaItem_header isTop isIn
      rw [← isPath] at isOwn ⊢
      exact mem_map.mpr ⟨header, mem_filter.mpr ⟨headerIn, decide_eq_true isOwn⟩, rfl⟩
  · intro member
    obtain ⟨entry, isEntry, rfl⟩ := mem_map.mp member
    obtain ⟨isIn, isOwn⟩ := mem_filter.mp isEntry
    exact ⟨_, mem_filterMap.mpr ⟨entry, isIn, of_decide_eq_true isOwn⟩, rfl⟩

theorem flatMap_stanzaItem (entries : List Key) :
    (entries.filterMap (stanzaItem all)).flatMap (fun item => item.2.toList) =
      (entries.filter (fun entry => (stanzaItem all entry).isSome)).filter
        (fun entry => !isHeader all entry) := by
  induction entries with
  | nil => rfl
  | cons entry rest ih =>
    cases isItem : stanzaItem all entry with
    | none => simp [isItem, ih]
    | some item =>
      rcases stanzaItem_some isItem with rfl | ⟨-, isInner⟩
      · have isOwn : isHeader all entry := decide_eq_true isItem
        simp [isItem, isOwn, ih]
      · have notOwn : isHeader all entry = false := by
          refine decide_eq_false fun isOwn => ?_
          rw [isItem, Option.some.injEq] at isOwn
          rw [isOwn] at isInner
          cases isInner
        simp [isItem, isInner, notOwn, ih]

theorem inners_perm : ((stanzas all).1.flatMap Stanza.inner).Perm
    ((all.filter (fun entry => (stanzaItem all entry).isSome)).filter (fun entry => !isHeader all entry)) := by
  rw [stanzas_fst]
  have isHeld : (((all.filterMap (stanzaItem all)).foldl setStanza []).flatMap Stanza.inner).Perm
      ((all.filterMap (stanzaItem all)).flatMap fun item => item.2.toList) :=
    flatMap_foldl_gather_perm (by intro _; rfl) (by intro _ _; rfl) (by intro _; rfl)
      (by intro _ _ _; rfl) _
  rwa [flatMap_stanzaItem] at isHeld

/-- **A stanza holds what departed under its header, and every other departed line is a leaf.** -/
theorem stanzas_perm (distinct : all.Nodup) :
    ((stanzas all).1.flatMap Stanza.keys ++ (stanzas all).2).Perm all := by
  have headers : ((stanzas all).1.map (fun stanza => headerOf stanza.head)).Perm
      (all.filter (isHeader all)) := by
    have mapped := (heads_perm distinct).map headerOf
    rw [map_map, map_map] at mapped
    refine mapped.trans (List.Perm.of_eq ?_)
    exact (map_congr_left fun entry _ => headerOf_pathOf entry).trans (map_id _)
  have isKeys : (stanzas all).1.flatMap Stanza.keys =
      (stanzas all).1.flatMap fun stanza => [headerOf stanza.head] ++ stanza.inner := rfl
  have isSplit : ((stanzas all).1.flatMap Stanza.keys).Perm
      (all.filter (fun entry => (stanzaItem all entry).isSome)) := by
    rw [isKeys]
    refine (flatMap_append_perm _ _ _).symm.trans ?_
    rw [← map_eq_flatMap]
    refine (headers.append inners_perm).trans ?_
    have isFilter : all.filter (isHeader all) =
        (all.filter (fun entry => (stanzaItem all entry).isSome)).filter (isHeader all) := by
      rw [filter_filter]
      refine filter_congr fun entry _ => ?_
      unfold isHeader
      cases stanzaItem all entry <;> simp
    rw [isFilter]
    exact filter_append_perm _ _
  rw [stanzas_snd]
  refine (isSplit.append_right _).trans ?_
  refine (List.Perm.append_left _ (List.Perm.of_eq ?_)).trans
    (filter_append_perm (fun entry => (stanzaItem all entry).isSome) all)
  exact filter_congr fun entry _ => by cases stanzaItem all entry <;> rfl

end Stanzas

/-! ### The groups of the leaves -/

section Groups

variable {featureOf : List Str → Str → FeatureAnswer} {leaves : List (Side × Key)}
  {groups : List LeafGroup} {group other : LeafGroup} {side : Side} {leaf : Side × Key}

/-- What a group gives a side of the units, taken for its own side. -/
def LeafGroup.of (side : Side) (group : LeafGroup) : List Key :=
  if group.side = side then group.lines else []

def leafOf (side : Side) (leaf : Side × Key) : List Key := if leaf.1 = side then [leaf.2] else []

theorem gathered_leafGroups (featureOf : List Str → Str → FeatureAnswer)
    (leaves : List (Side × Key)) :
    Gathered LeafGroup.key (placeOf featureOf)
      (fun leaf => ⟨leaf.1, leaf.2.1, (groupedBy featureOf leaf.2).feature,
        (groupedBy featureOf leaf.2).single, [leaf.2]⟩)
      (fun group leaf => { group with lines := group.lines ++ [leaf.2] }) leaves
      (leafGroups featureOf leaves) :=
  gathered_foldl (by intro _; rfl) (by intro _ _; rfl) leaves

theorem groups_perm (featureOf : List Str → Str → FeatureAnswer) (leaves : List (Side × Key))
    (side : Side) : ((leafGroups featureOf leaves).flatMap (LeafGroup.of side)).Perm (leaves.flatMap (leafOf side)) := by
  unfold leafGroups
  refine flatMap_foldl_gather_perm (by intro _; rfl) (by intro _ _; rfl) (by intro _; rfl) ?_ leaves
  intro group leaf isKey
  have sameSide : group.side = leaf.1 := congrArg Prod.fst isKey
  unfold LeafGroup.of leafOf
  by_cases isSide : leaf.1 = side
  · rw [if_pos isSide, if_pos (sameSide.trans isSide), if_pos (sameSide.trans isSide)]
  · rw [if_neg isSide, if_neg (fun is => isSide (sameSide.symm.trans is)),
      if_neg (fun is => isSide (sameSide.symm.trans is))]
    rfl

theorem lines_eq (isGroup : group ∈ leafGroups featureOf leaves) :
    group.lines = (leaves.filter (fun leaf => placeOf featureOf leaf = group.key)).flatMap
      fun leaf => [leaf.2] :=
  made_flatMap (by intro _; rfl) (by intro _ _; rfl)
    ((gathered_leafGroups featureOf leaves).made group isGroup)

theorem place_of_mem_lines (isGroup : group ∈ leafGroups featureOf leaves) {entry : Key}
    (isLine : entry ∈ group.lines) : placeOf featureOf (group.side, entry) = group.key := by
  rw [lines_eq isGroup] at isLine
  obtain ⟨leaf, isLeaf, isEntry⟩ := mem_flatMap.mp isLine
  have isPlace := of_decide_eq_true (mem_filter.mp isLeaf).2
  rw [mem_singleton.mp isEntry, ← isPlace]
  exact congrArg (fun side => placeOf featureOf (side, leaf.2)) (congrArg Prod.fst isPlace).symm

theorem single_of_first (isGroup : group ∈ leafGroups featureOf leaves) :
    ∃ first, firstOf featureOf leaves group.key = some first ∧ first.2 ∈ group.lines ∧
      group.single = (groupedBy featureOf first.2).single := by
  have gathered := gathered_leafGroups featureOf leaves
  obtain ⟨first, isFirst, isSingle⟩ :=
    made_first LeafGroup.single (by intro _ _; rfl) (gathered.made group isGroup)
  refine ⟨first, ?_, ?_, isSingle⟩
  · rw [← isFirst, List.head?_filter]
    rfl
  · rw [lines_eq isGroup]
    exact mem_flatMap.mpr ⟨first, mem_of_head? isFirst, .head _⟩

def MatesAgree (groups : List LeafGroup) : Prop :=
  ∀ group ∈ groups, group.side = .remove → ∀ other, mate groups .add group = some other →
    other.single = group.single

theorem matesAgree_iff :
    MatesAgree (leafGroups featureOf leaves) ↔ SidesAgree featureOf leaves := by
  have gathered := gathered_leafGroups featureOf leaves
  have groupOf {place : Place} {first : Side × Key} (isFirst : firstOf featureOf leaves place = some first) :
      ∃ group ∈ leafGroups featureOf leaves, group.key = place ∧
        group.single = (groupedBy featureOf first.2).single := by
    unfold firstOf at isFirst
    have isFound := List.find?_some isFirst
    have isPlace := of_decide_eq_true isFound
    obtain ⟨group, isGroup, isKey⟩ := gathered.every first (mem_of_find?_eq_some isFirst)
    obtain ⟨own, isOwn, -, isSingle⟩ := single_of_first isGroup
    unfold firstOf at isOwn
    rw [isKey, isPlace, isFirst] at isOwn
    cases isOwn
    exact ⟨group, isGroup, isKey.trans isPlace, isSingle⟩
  constructor
  · intro agree chain feature missing added isMissing isAdded
    obtain ⟨one, isOne, oneKey, oneSingle⟩ := groupOf isMissing
    obtain ⟨two, isTwo, twoKey, twoSingle⟩ := groupOf isAdded
    have isMate : mate (leafGroups featureOf leaves) .add two = some one := by
      refine (find_eq_some_iff gathered.distinct).mpr ⟨isOne, oneKey.trans ?_⟩
      exact congrArg (Prod.mk Side.add) (congrArg Prod.snd twoKey).symm
    rw [← oneSingle, ← twoSingle]
    exact agree two isTwo (congrArg Prod.fst twoKey) one isMate
  · intro agree group isGroup isRemove other isMate
    obtain ⟨isOther, otherKey⟩ := (find_eq_some_iff gathered.distinct).mp isMate
    obtain ⟨one, isOne, -, oneSingle⟩ := single_of_first isOther
    obtain ⟨two, isTwo, -, twoSingle⟩ := single_of_first isGroup
    have groupKey : group.key = (.remove, group.chain, group.feature) := by
      rw [← isRemove]
      rfl
    rw [otherKey] at isOne
    rw [groupKey] at isTwo
    rw [oneSingle, twoSingle]
    exact agree _ _ one two isOne isTwo

/-- What a group of the removals gives the units: its lines in a change, and its lines by
itself. -/
def given (groups : List LeafGroup) (group : LeafGroup) : List Key :=
  if group.side = .remove then
    ((mate groups .add group).map fun other => if other.single then group.lines else []).getD [] ++
      if group.single ∧ (mate groups .add group).isSome then [] else group.lines
  else []

theorem leafUnit_add (groups : List LeafGroup) (group : LeafGroup) :
    (leafUnit groups group).toList.flatMap DepartedUnit.add = group.of .add := by
  unfold leafUnit LeafGroup.of
  split
  · rename_i isPaired
    simp [isPaired.1]
  · split
    · rename_i isSingle
      split <;> simp [LeafGroup.plain, isSingle.1]
    · simp [LeafGroup.plain]

theorem leafUnit_remove (groups : List LeafGroup) (group : LeafGroup) :
    (leafUnit groups group).toList.flatMap DepartedUnit.remove =
      (if group.side = .add ∧ group.single then
        ((mate groups .remove group).map LeafGroup.lines).getD [] else []) ++
      if group.side = .remove then
        (if group.single ∧ (mate groups .add group).isSome then [] else group.lines) else [] := by
  unfold leafUnit
  cases isSide : group.side with
  | add =>
    by_cases isSingle : group.single = true
    · cases isMate : mate groups .remove group with
      | none => simp [isSingle, LeafGroup.plain, isSide]
      | some other => simp [isSingle]
    · simp [isSingle, LeafGroup.plain, isSide]
  | remove =>
    by_cases isPaired : group.single = true ∧ (mate groups .add group).isSome = true
    · simp [isPaired]
    · simp [isPaired, LeafGroup.plain, isSide]

theorem remove_perm (distinct : (groups.map LeafGroup.key).Nodup) :
    ((groups.filterMap (leafUnit groups)).flatMap DepartedUnit.remove).Perm
      (groups.flatMap (given groups)) := by
  have isSwept (group : LeafGroup) :
      (if group.side = .add ∧ group.single then
        ((mate groups .remove group).map LeafGroup.lines).getD [] else []) =
      groups.flatMap fun other => if other.key = (.remove, group.chain, group.feature) then
        (if group.side = .add ∧ group.single then other.lines else []) else [] := by
    rw [flatMap_keyed (fun other => if group.side = .add ∧ group.single then other.lines else []) _ distinct]
    unfold mate
    split
    · rfl
    · cases groups.find? _ <;> rfl
  have isTurned (group other : LeafGroup) :
      (if group.key = (.remove, other.chain, other.feature) then
        (if other.side = .add ∧ other.single then group.lines else []) else []) =
      if other.key = (.add, group.chain, group.feature) then
        (if group.side = .remove ∧ other.single then group.lines else []) else [] := by
    simp only [LeafGroup.key, Prod.mk.injEq]
    by_cases isPlace : group.chain = other.chain ∧ group.feature = other.feature
    · rw [isPlace.1, isPlace.2]
      cases group.side <;> cases other.side <;> simp
    · have notPlace : ¬ (other.chain = group.chain ∧ other.feature = group.feature) :=
        fun is => isPlace ⟨is.1.symm, is.2.symm⟩
      rw [if_neg fun is => isPlace is.2, if_neg fun is => notPlace is.2]
  rw [filterMap_eq_flatMap_toList, flatMap_assoc]
  simp only [leafUnit_remove]
  refine (flatMap_append_perm _ _ _).symm.trans ?_
  simp only [isSwept]
  refine ((flatMap_comm_perm _ _ _).append_right _).trans ?_
  refine (flatMap_append_perm _ _ _).trans (List.Perm.of_eq ?_)
  refine flatMap_congr fun group _ => ?_
  simp only [isTurned]
  rw [flatMap_keyed (fun other => if group.side = .remove ∧ other.single then group.lines else []) _ distinct]
  unfold given mate
  cases isSide : group.side with
  | add => cases groups.find? _ <;> simp
  | remove => simp

/-- **The removals' groups give their lines once exactly where they agree with their mates.** -/
theorem given_perm_iff (distinct : (groups.map LeafGroup.key).Nodup)
    (inhabited : ∀ group ∈ groups, group.lines ≠ [])
    (apart : ∀ group ∈ groups, ∀ other ∈ groups, ∀ entry ∈ group.lines, entry ∈ other.lines →
      group.side = other.side → group.key = other.key) :
    (groups.flatMap (given groups)).Perm (groups.flatMap (LeafGroup.of .remove)) ↔
      MatesAgree groups := by
  constructor
  · intro isPerm group isGroup isRemove other isMate
    obtain ⟨entry, isLine⟩ := exists_mem_of_ne_nil _ (inhabited group isGroup)
    have isOwn : groups.find? (fun found => found.key = group.key) = some group :=
      (find_eq_some_iff distinct).mpr ⟨isGroup, rfl⟩
    have isCount := isPerm.count_eq entry
    rw [count_flatMap_keyed group.key distinct ?_,
      count_flatMap_keyed group.key distinct ?_, isOwn] at isCount
    · have isSome : 0 < group.lines.count entry := count_pos_iff.mpr isLine
      simp only [Option.map_some, Option.getD_some, given, LeafGroup.of, isRemove, if_true, isMate,
        Option.isSome_some, and_true, count_append] at isCount
      by_contra notSame
      cases isSingle : group.single <;> cases otherSingle : other.single <;>
        simp [isSingle, otherSingle] at notSame isCount <;> omega
    · intro found isFound isPart
      unfold LeafGroup.of at isPart
      split at isPart
      · rename_i isSide
        exact apart found isFound group isGroup entry isPart isLine (isSide.trans isRemove.symm)
      · cases isPart
    · intro found isFound isPart
      unfold given at isPart
      split at isPart
      · rename_i isSide
        have isPart : entry ∈ found.lines := by
          rcases mem_append.mp isPart with isChange | isOwn
          · cases isOther : mate groups .add found with
            | none => simp [isOther] at isChange
            | some other =>
              rw [isOther, Option.map_some, Option.getD_some] at isChange
              split at isChange
              · exact isChange
              · cases isChange
          · split at isOwn
            · cases isOwn
            · exact isOwn
        exact apart found isFound group isGroup entry isPart isLine (isSide.trans isRemove.symm)
      · cases isPart
  · intro agree
    refine List.Perm.of_eq (flatMap_congr fun group isGroup => ?_)
    unfold given LeafGroup.of
    split
    · rename_i isRemove
      cases isMate : mate groups .add group with
      | none => simp
      | some other =>
        have isSame := agree group isGroup isRemove other isMate
        cases isSingle : group.single <;> simp [isSame, isSingle]
    · rfl

end Groups

/-! ### The partition -/

section Partition

variable {featureOf : List Str → Str → FeatureAnswer} {dep : Departures}

theorem stanzaUnits_add (found : List Stanza) :
    (found.map (stanzaUnit .add)).flatMap DepartedUnit.add = found.flatMap Stanza.keys ∧
    (found.map (stanzaUnit .add)).flatMap DepartedUnit.remove = [] := by
  refine ⟨?_, ?_⟩
  · rw [flatMap_map]
    rfl
  · rw [flatMap_map]
    exact flatMap_eq_nil_iff.mpr fun _ _ => rfl

theorem stanzaUnits_remove (found : List Stanza) :
    (found.map (stanzaUnit .remove)).flatMap DepartedUnit.remove = found.flatMap Stanza.keys ∧
    (found.map (stanzaUnit .remove)).flatMap DepartedUnit.add = [] := by
  refine ⟨?_, ?_⟩
  · rw [flatMap_map]
    rfl
  · rw [flatMap_map]
    exact flatMap_eq_nil_iff.mpr fun _ _ => rfl

theorem leavesOf_add : (leavesOf dep).flatMap (leafOf .add) = (stanzas dep.missing).2 := by
  simp [leavesOf, leafOf, flatMap_map]

theorem leavesOf_remove : (leavesOf dep).flatMap (leafOf .remove) = (stanzas dep.added).2 := by
  simp [leavesOf, leafOf, flatMap_map]

theorem unitsOf_add (featureOf : List Str → Str → FeatureAnswer) (distinct : dep.missing.Nodup) :
    ((unitsOf featureOf dep).flatMap DepartedUnit.add).Perm dep.missing := by
  unfold unitsOf
  rw [flatMap_append, flatMap_append, (stanzaUnits_add _).1, (stanzaUnits_remove _).2,
    append_nil, filterMap_eq_flatMap_toList, flatMap_assoc]
  simp only [leafUnit_add]
  have isLeaves := groups_perm featureOf (leavesOf dep) .add
  rw [leavesOf_add] at isLeaves
  exact (isLeaves.append_left _).trans (stanzas_perm distinct)

theorem unitsOf_remove_iff (distinct : dep.added.Nodup) :
    ((unitsOf featureOf dep).flatMap DepartedUnit.remove).Perm dep.added ↔
      SidesAgree featureOf (leavesOf dep) := by
  have gathered := gathered_leafGroups featureOf (leavesOf dep)
  have isLeaves := groups_perm featureOf (leavesOf dep) .remove
  rw [leavesOf_remove] at isLeaves
  have isAll := (isLeaves.append_left ((stanzas dep.added).1.flatMap Stanza.keys)).trans
    (stanzas_perm distinct)
  unfold unitsOf
  rw [flatMap_append, flatMap_append, (stanzaUnits_add _).2, (stanzaUnits_remove _).1,
    nil_append, ← matesAgree_iff, ← given_perm_iff gathered.distinct ?_ ?_]
  · have isGiven := remove_perm gathered.distinct
    constructor
    · intro isPerm
      have isSame := ((isGiven.append_left _).symm.trans isPerm).trans isAll.symm
      exact (perm_append_left_iff _).mp isSame
    · exact fun isSame => ((isGiven.append_left _).trans (isSame.append_left _)).trans isAll
  · intro group isGroup
    obtain ⟨first, -, isFirst, -⟩ := single_of_first isGroup
    exact ne_nil_of_mem isFirst
  · intro group isGroup other isOther entry isLine isOtherLine sameSide
    rw [← place_of_mem_lines isGroup isLine, ← place_of_mem_lines isOther isOtherLine, sameSide]

variable [Unicode]

/-- **The units partition the departure exactly where, on each section, a feature with leaves on
both sides is single on both or on neither.** -/
theorem units_partition (featureOf : List Str → Str → FeatureAnswer) (golden running intended : Str) :
    Partitions (departures golden running intended)
        (unitsOf featureOf (departures golden running intended)) ↔
      SidesAgree featureOf (leavesOf (departures golden running intended)) := by
  have isDeparted := departed golden running intended
  have isMissing := unitsOf_add featureOf isDeparted.missing
  constructor
  · exact fun partitions => (unitsOf_remove_iff isDeparted.added).mp partitions.added
  · intro agree
    have isAdded := (unitsOf_remove_iff isDeparted.added).mpr agree
    exact
      { missing := isMissing
        added := isAdded
        missingOnce := isMissing.nodup_iff.mpr isDeparted.missing
        addedOnce := isAdded.nodup_iff.mpr isDeparted.added
        apart := fun entry isOne isTwo =>
          isDeparted.apart (isMissing.mem_iff.mp isOne) (isAdded.mem_iff.mp isTwo) }

end Partition

/-- Two lines of one feature, said to be single-valued for one of them only: the one on the
device is in no unit. -/
theorem departed_unit_dropped :
    letI : Unicode := basicLatin
    ¬ Partitions
      (departures "interface Vlan1\n mtu 1400".ascii "interface Vlan1\n mtu 1500".ascii
        "interface Vlan1\n mtu 1400".ascii)
      (unitsOf (fun _ line => ⟨[.name "mtu".ascii], line = " mtu 1500".ascii⟩)
        (departures "interface Vlan1\n mtu 1400".ascii "interface Vlan1\n mtu 1500".ascii
          "interface Vlan1\n mtu 1400".ascii)) := by
  let _ : Unicode := basicLatin
  intro partitions
  exact absurd partitions.added.length_eq (by decide +kernel)

end Nmas.Heal
