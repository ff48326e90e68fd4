import Mathlib.Data.List.Perm.Basic
import Mathlib.Data.List.Induction
import Nmas.Log.Keyed

/-!
Contract: items gathered into groups by their keys, each group standing where its
first item came.

Owns: what a group is made of (`Gathered.made`), and that two lists of groups of one
set of keys are one list up to order (`exists_perm_forall₂`).
-/

namespace Nmas.Log

open List

variable {Item Group Key : Type} [DecidableEq Key]

def gather (keyOf : Group → Key) (key : Item → Key) (new : Item → Group)
    (add : Group → Item → Group) (groups : List Group) (item : Item) : List Group :=
  if groups.any (fun group => keyOf group = key item) then
    amend keyOf (key item) (fun group => add group item) groups
  else groups ++ [new item]

def made (new : Item → Group) (add : Group → Item → Group) : List Item → Option Group
  | [] => none
  | first :: rest => some (rest.foldl add (new first))

structure Gathered (keyOf : Group → Key) (key : Item → Key) (new : Item → Group)
    (add : Group → Item → Group) (items : List Item) (groups : List Group) : Prop where
  distinct : (groups.map keyOf).Nodup
  every : ∀ item ∈ items, ∃ group ∈ groups, keyOf group = key item
  made : ∀ group ∈ groups,
    some group = made new add (items.filter (fun item => key item = keyOf group))

variable {keyOf : Group → Key} {key : Item → Key} {new : Item → Group}
  {add : Group → Item → Group} {items : List Item} {groups : List Group} {item : Item}

theorem made_append (later : items ≠ []) : made new add (items ++ [item]) =
    (made new add items).map (fun group => add group item) := by
  cases items with
  | nil => exact absurd rfl later
  | cons first rest => simp [made, foldl_append]

theorem Gathered.gather (gathered : Gathered keyOf key new add items groups)
    (newKey : ∀ item, keyOf (new item) = key item)
    (addKey : ∀ group item, keyOf (add group item) = keyOf group) :
    Gathered keyOf key new add (items ++ [item]) (gather keyOf key new add groups item) := by
  have others (found : Key) (isOther : found ≠ key item) :
      (items ++ [item]).filter (fun item => key item = found) =
        items.filter (fun item => key item = found) := by
    rw [filter_append, filter_cons_of_neg (by simpa using isOther.symm),
      filter_nil, append_nil]
  have here (found : Key) (isKey : found = key item) :
      (items ++ [item]).filter (fun item => key item = found) =
        items.filter (fun item => key item = found) ++ [item] := by
    rw [filter_append, filter_cons_of_pos (by simpa using isKey.symm), filter_nil]
  unfold Log.gather
  by_cases isThere : groups.any (fun group => keyOf group = key item) = true
  · rw [if_pos isThere]
    have sameKeys : (amend keyOf (key item) (fun group => add group item) groups).map keyOf =
        groups.map keyOf := amend_map (fun group => addKey group item) groups
    refine ⟨by rw [sameKeys]; exact gathered.distinct, ?_, ?_⟩
    · intro other member
      have inKeys : key other ∈ (amend keyOf (key item) (fun group => add group item) groups).map
          keyOf := by
        rw [sameKeys]
        rcases mem_append.mp member with earlier | isLast
        · obtain ⟨group, isGroup, isKey⟩ := gathered.every other earlier
          exact mem_map.mpr ⟨group, isGroup, isKey⟩
        · obtain ⟨group, isGroup, isKey⟩ := any_eq_true.mp isThere
          rw [mem_singleton.mp isLast]
          exact mem_map.mpr ⟨group, isGroup, of_decide_eq_true isKey⟩
      exact mem_map.mp inKeys
    · intro group member
      obtain ⟨old, isOld, isGroup⟩ := mem_map.mp member
      have fromOld := gathered.made old isOld
      by_cases isKey : keyOf old = key item
      · rw [if_pos isKey] at isGroup
        rw [← isGroup, here _ ((addKey old item).trans isKey), addKey, made_append, ← fromOld]
        · rfl
        · intro isEmpty
          rw [isEmpty] at fromOld
          cases fromOld
      · rw [if_neg isKey] at isGroup
        rw [← isGroup, others _ isKey]
        exact fromOld
  · rw [if_neg isThere]
    have isNew : ∀ group ∈ groups, keyOf group ≠ key item := by
      intro group member isKey
      exact isThere (any_eq_true.mpr ⟨group, member, decide_eq_true isKey⟩)
    refine ⟨?_, ?_, ?_⟩
    · rw [map_append, map_singleton, newKey]
      refine nodup_append.mpr ⟨gathered.distinct, nodup_singleton _, ?_⟩
      intro found member last isLast
      obtain ⟨group, isGroup, isKey⟩ := mem_map.mp member
      rw [mem_singleton.mp isLast, ← isKey]
      exact isNew group isGroup
    · intro other member
      rcases mem_append.mp member with earlier | isLast
      · obtain ⟨group, isGroup, isKey⟩ := gathered.every other earlier
        exact ⟨group, mem_append_left _ isGroup, isKey⟩
      · rw [mem_singleton.mp isLast]
        exact ⟨new item, by simp, newKey item⟩
    · intro group member
      rcases mem_append.mp member with isOld | isLast
      · rw [others _ (isNew group isOld)]
        exact gathered.made group isOld
      · rw [mem_singleton.mp isLast, newKey, here _ rfl]
        have none : items.filter (fun other => key other = key item) = [] := by
          refine filter_eq_nil_iff.mpr fun other member isKey => ?_
          obtain ⟨group, isGroup, hasKey⟩ := gathered.every other member
          exact isNew group isGroup (hasKey.trans (of_decide_eq_true isKey))
        rw [none]
        rfl

theorem gathered_foldl (newKey : ∀ item, keyOf (new item) = key item)
    (addKey : ∀ group item, keyOf (add group item) = keyOf group) (items : List Item) :
    Gathered keyOf key new add items (items.foldl (gather keyOf key new add) []) := by
  induction items using List.reverseRec with
  | nil => exact ⟨nodup_nil, by simp, by simp⟩
  | append_singleton items item ih =>
    rw [foldl_append]
    exact ih.gather newKey addKey

theorem Gathered.mem_keys (gathered : Gathered keyOf key new add items groups) {found : Key} :
    found ∈ groups.map keyOf ↔ ∃ item ∈ items, key item = found := by
  constructor
  · intro member
    obtain ⟨group, isGroup, isKey⟩ := mem_map.mp member
    have isMade := gathered.made group isGroup
    cases isItems : items.filter (fun item => key item = keyOf group) with
    | nil =>
      rw [isItems] at isMade
      cases isMade
    | cons first rest =>
      have isFirst : first ∈ items.filter (fun item => key item = keyOf group) := by
        rw [isItems]
        exact .head _
      obtain ⟨isIn, hasKey⟩ := mem_filter.mp isFirst
      exact ⟨first, isIn, (of_decide_eq_true hasKey).trans isKey⟩
  · rintro ⟨item, isIn, isKey⟩
    obtain ⟨group, isGroup, hasKey⟩ := gathered.every item isIn
    exact mem_map.mpr ⟨group, isGroup, hasKey.trans isKey⟩

theorem forall₂_imp {One Other : Type} {relation finer : One → Other → Prop} {ones : List One}
    {others : List Other} (related : List.Forall₂ relation ones others)
    (finely : ∀ one ∈ ones, ∀ other ∈ others, relation one other → finer one other) :
    List.Forall₂ finer ones others := by
  induction related with
  | nil => exact .nil
  | cons isRelated _ ih =>
    refine .cons (finely _ mem_cons_self _ (.head _) isRelated) ?_
    exact ih fun one isOne other isOther =>
      finely one (.tail _ isOne) other (.tail _ isOther)

omit [DecidableEq Key] in
theorem exists_perm_forall₂ {others : List Group} {same : Group → Group → Prop}
    (distinct : (groups.map keyOf).Nodup) (othersDistinct : (others.map keyOf).Nodup)
    (keys : ∀ found, found ∈ groups.map keyOf ↔ found ∈ others.map keyOf)
    (isSame : ∀ group ∈ groups, ∀ other ∈ others, keyOf group = keyOf other → same group other) :
    ∃ ordered, ordered.Perm others ∧ List.Forall₂ same groups ordered := by
  have permuted := (perm_ext_iff_of_nodup distinct othersDistinct).mpr keys
  have itself : List.Forall₂ (fun found group => found = keyOf group) (others.map keyOf) others :=
    List.forall₂_map_left_iff.mpr (List.forall₂_same.mpr fun _ _ => rfl)
  obtain ⟨ordered, pairs, isPerm⟩ := perm_comp_forall₂ permuted itself
  refine ⟨ordered, isPerm, forall₂_imp (List.forall₂_map_left_iff.mp pairs) ?_⟩
  intro group isGroup other isOther isKey
  exact isSame group isGroup other (isPerm.mem_iff.mp isOther) isKey

/-! ### What the groups hold -/

section Parts

variable {Part : Type} {parts : Group → List Part} {partsOf : Item → List Part}

theorem flatMap_amend_perm (distinct : (groups.map keyOf).Nodup)
    (isThere : groups.any (fun group => keyOf group = key item) = true)
    (addParts : ∀ group, keyOf group = key item →
      parts (add group item) = parts group ++ partsOf item) :
    ((amend keyOf (key item) (fun group => add group item) groups).flatMap parts).Perm
      (groups.flatMap parts ++ partsOf item) := by
  induction groups with
  | nil => simp at isThere
  | cons first rest ih =>
    obtain ⟨isFresh, restDistinct⟩ := nodup_cons.mp distinct
    show List.Perm (parts (if keyOf first = key item then add first item else first) ++
      (amend keyOf (key item) (fun group => add group item) rest).flatMap parts) _
    by_cases isKey : keyOf first = key item
    · have isSame : amend keyOf (key item) (fun group => add group item) rest = rest := by
        refine (map_congr_left fun group isGroup => ?_).trans (map_id rest)
        exact if_neg fun isOther => isFresh (mem_map.mpr ⟨group, isGroup, isOther.trans isKey.symm⟩)
      rw [if_pos isKey, isSame, addParts _ isKey, flatMap_cons, append_assoc, append_assoc]
      exact List.Perm.append_left _ perm_append_comm
    · rw [if_neg isKey, flatMap_cons, append_assoc]
      refine List.Perm.append_left _ (ih restDistinct ?_)
      simpa [isKey] using isThere

theorem flatMap_gather_perm (distinct : (groups.map keyOf).Nodup)
    (newParts : ∀ item, parts (new item) = partsOf item)
    (addParts : ∀ group, keyOf group = key item →
      parts (add group item) = parts group ++ partsOf item) :
    ((gather keyOf key new add groups item).flatMap parts).Perm
      (groups.flatMap parts ++ partsOf item) := by
  unfold gather
  split
  · rename_i isThere
    exact flatMap_amend_perm distinct isThere addParts
  · rw [flatMap_append, flatMap_singleton, newParts]

/-- **Together the groups hold what their items bring.** -/
theorem flatMap_foldl_gather_perm (newKey : ∀ item, keyOf (new item) = key item)
    (addKey : ∀ group item, keyOf (add group item) = keyOf group)
    (newParts : ∀ item, parts (new item) = partsOf item)
    (addParts : ∀ group item, keyOf group = key item →
      parts (add group item) = parts group ++ partsOf item)
    (items : List Item) :
    ((items.foldl (gather keyOf key new add) []).flatMap parts).Perm (items.flatMap partsOf) := by
  induction items using List.reverseRec with
  | nil => exact .nil
  | append_singleton items item ih =>
    rw [foldl_append, flatMap_append, flatMap_singleton]
    refine (flatMap_gather_perm (gathered_foldl newKey addKey items).distinct newParts
      fun group isKey => addParts group item isKey).trans ?_
    exact ih.append_right _

omit [DecidableEq Key] in
theorem made_flatMap (newParts : ∀ item, parts (new item) = partsOf item)
    (addParts : ∀ group item, parts (add group item) = parts group ++ partsOf item) {group : Group}
    (isMade : some group = made new add items) : parts group = items.flatMap partsOf := by
  cases items with
  | nil => cases isMade
  | cons first rest =>
    cases isMade
    rw [flatMap_cons, ← newParts]
    generalize new first = group
    induction rest generalizing group with
    | nil => simp
    | cons item rest ih =>
      rw [foldl_cons, ih, addParts, append_assoc, flatMap_cons]

omit [DecidableEq Key] in
theorem made_first {Value : Type} (value : Group → Value)
    (addValue : ∀ group item, value (add group item) = value group) {group : Group}
    (isMade : some group = made new add items) :
    ∃ first, items.head? = some first ∧ value group = value (new first) := by
  cases items with
  | nil => cases isMade
  | cons first rest =>
    cases isMade
    refine ⟨first, rfl, ?_⟩
    generalize new first = group
    induction rest generalizing group with
    | nil => rfl
    | cons item rest ih =>
      rw [foldl_cons, ih, addValue]

end Parts

theorem flatMap_keyed {Part : Type} (parts : Group → List Part) (found : Key)
    (distinct : (groups.map keyOf).Nodup) :
    (groups.flatMap fun group => if keyOf group = found then parts group else []) =
      ((groups.find? (fun group => keyOf group = found)).map parts).getD [] := by
  induction groups with
  | nil => rfl
  | cons first rest ih =>
    obtain ⟨isFresh, restDistinct⟩ := nodup_cons.mp distinct
    rw [flatMap_cons, ih restDistinct]
    by_cases isKey : keyOf first = found
    · have noOther : rest.find? (fun group => keyOf group = found) = none := by
        refine List.find?_eq_none.mpr fun group isGroup isOther => isFresh ?_
        exact mem_map.mpr ⟨group, isGroup, (of_decide_eq_true isOther).trans isKey.symm⟩
      rw [List.find?_cons_of_pos (by simpa using isKey), if_pos isKey, noOther]
      simp
    · rw [List.find?_cons_of_neg (by simpa using isKey), if_neg isKey, nil_append]

theorem count_flatMap_keyed {Part : Type} [BEq Part] [LawfulBEq Part] {parts : Group → List Part}
    {part : Part} (found : Key) (distinct : (groups.map keyOf).Nodup)
    (only : ∀ group ∈ groups, part ∈ parts group → keyOf group = found) :
    (groups.flatMap parts).count part =
      (((groups.find? (fun group => keyOf group = found)).map parts).getD []).count part := by
  rw [← flatMap_keyed parts found distinct, count_flatMap, count_flatMap]
  refine congrArg List.sum (map_congr_left fun group isGroup => ?_)
  show (parts group).count part = (if keyOf group = found then parts group else []).count part
  by_cases isKey : keyOf group = found
  · rw [if_pos isKey]
  · rw [if_neg isKey, count_nil, count_eq_zero]
    exact fun isPart => isKey (only group isGroup isPart)

theorem flatMap_comm_perm {One Other Part : Type} (parts : One → Other → List Part)
    (ones : List One) (others : List Other) :
    (ones.flatMap fun one => others.flatMap (parts one)).Perm
      (others.flatMap fun other => ones.flatMap (parts · other)) := by
  induction ones with
  | nil => simp
  | cons one rest ih =>
    rw [flatMap_cons]
    simp only [flatMap_cons]
    exact (ih.append_left _).trans (flatMap_append_perm _ _ _)

end Nmas.Log
