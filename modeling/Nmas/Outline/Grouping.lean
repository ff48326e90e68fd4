import Mathlib.Algebra.BigOperators.Group.List.Basic
import Mathlib.Data.List.Basic
import Mathlib.Data.List.Nodup
import Mathlib.Data.List.Perm.Basic

/-!
Contract: grouping values under keys, in order of arrival, and matching a list
off against another.

A group table is an association list with one entry for each key, in the order
the keys were first met. `under` adds to a group and creates it when it is new;
`group` is the table of a whole list. What a look-up in such a table finds is
stated once, for any keys and values, with the sum over one table of what
another holds under its keys.
-/

namespace Nmas.Outline

variable {κ α : Type*} [DecidableEq κ]

def under (key : κ) (values : List α) : List (κ × List α) → List (κ × List α)
  | [] => [(key, values)]
  | (other, group) :: rest =>
    if other = key then (other, group ++ values) :: rest
    else (other, group) :: under key values rest

def group (items : List (κ × List α)) : List (κ × List α) :=
  items.foldl (fun table item => under item.1 item.2 table) []

def lookup (key : κ) (table : List (κ × List α)) : Option (List α) :=
  (table.find? (fun entry => entry.1 = key)).map Prod.snd

@[simp] theorem lookup_nil (sought : κ) : lookup sought ([] : List (κ × List α)) = none := rfl

theorem lookup_cons_eq (key sought : κ) (values : List α) (table : List (κ × List α)) :
    lookup sought ((key, values) :: table) =
      if sought = key then some values else lookup sought table := by
  unfold lookup
  by_cases same : sought = key
  · subst same
    simp
  · have otherKey : key ≠ sought := fun equal => same equal.symm
    simp [otherKey, same]

theorem lookup_under (key sought : κ) (values : List α) (table : List (κ × List α)) :
    lookup sought (under key values table) =
      if sought = key then some ((lookup key table).getD [] ++ values)
      else lookup sought table := by
  induction table with
  | nil => simp [under, lookup_cons_eq]
  | cons entry rest ih =>
    obtain ⟨other, group⟩ := entry
    rw [under]
    by_cases isKey : other = key
    · subst isKey
      rw [if_pos rfl]
      by_cases same : sought = other <;> simp [lookup_cons_eq, same]
    · have otherGroup : key ≠ other := fun same => isKey same.symm
      rw [if_neg isKey, lookup_cons_eq, lookup_cons_eq, lookup_cons_eq, ih, if_neg otherGroup]
      by_cases same : sought = other
      · subst same
        simp [isKey]
      · simp [same]

private theorem lookup_foldl_under (items table : List (κ × List α)) (sought : κ) :
    lookup sought (items.foldl (fun table item => under item.1 item.2 table) table) =
      if sought ∈ items.map Prod.fst then
        some ((lookup sought table).getD [] ++
          (items.filter (fun item => item.1 = sought)).flatMap Prod.snd)
      else lookup sought table := by
  induction items generalizing table with
  | nil => simp
  | cons item rest ih =>
    rw [List.foldl_cons, ih, lookup_under]
    by_cases here : item.1 = sought
    · subst here
      by_cases later : item.1 ∈ rest.map Prod.fst
      · simp [later]
      · have noMore : rest.filter (fun other => decide (other.1 = item.1)) = [] := by
          rw [List.filter_eq_nil_iff]
          intro other member same
          exact later (List.mem_map.mpr ⟨other, member, by simpa using same⟩)
        simp [later, noMore]
    · have elsewhere : sought ≠ item.1 := fun same => here same.symm
      simp only [elsewhere, if_false, List.map_cons, List.mem_cons, false_or, here, decide_false,
        List.filter_cons, Bool.false_eq_true]

theorem lookup_group (items : List (κ × List α)) (sought : κ) :
    lookup sought (group items) =
      if sought ∈ items.map Prod.fst then
        some ((items.filter (fun item => item.1 = sought)).flatMap Prod.snd)
      else none := by
  simp [group, lookup_foldl_under]

theorem lookup_group_isSome (items : List (κ × List α)) (sought : κ) :
    (lookup sought (group items)).isSome ↔ sought ∈ items.map Prod.fst := by
  rw [lookup_group]
  split_ifs with found <;> simp [found]

theorem mem_lookup_group {items : List (κ × List α)} {sought : κ} {values : List α}
    (found : lookup sought (group items) = some values) (value : α) :
    value ∈ values ↔ ∃ item ∈ items, item.1 = sought ∧ value ∈ item.2 := by
  rw [lookup_group] at found
  split_ifs at found
  cases found
  simp only [List.mem_flatMap, List.mem_filter, decide_eq_true_eq]
  constructor
  · rintro ⟨item, ⟨member, same⟩, inside⟩
    exact ⟨item, member, same, inside⟩
  · rintro ⟨item, member, same, inside⟩
    exact ⟨item, ⟨member, same⟩, inside⟩

theorem mem_keys_group {items : List (κ × List α)} {key : κ} :
    key ∈ (group items).map Prod.fst ↔ key ∈ items.map Prod.fst := by
  refine Iff.trans ?_ (lookup_group_isSome items key)
  rw [lookup, Option.isSome_map, List.find?_isSome, List.mem_map]
  simp only [decide_eq_true_eq]

end Nmas.Outline

namespace Nmas.Outline

section Lists

variable {α : Type*} [DecidableEq α]

/-- What matching a list off against another comes to. -/
structure Matching (α : Type*) where
  matched : List α
  missing : List α
  leftOver : List α

def matchOff : List α → List α → Matching α
  | [], others => ⟨[], [], others⟩
  | item :: rest, others =>
    if item ∈ others then
      let found := matchOff rest (others.erase item)
      { found with matched := item :: found.matched }
    else
      let found := matchOff rest others
      { found with missing := item :: found.missing }

theorem matchOff_own (own others : List α) :
    ((matchOff own others).matched ++ (matchOff own others).missing).Perm own := by
  induction own generalizing others with
  | nil => rfl
  | cons item rest ih =>
    rw [matchOff]
    split
    · exact (ih _).cons item
    · exact List.perm_middle.trans ((ih _).cons item)

theorem matchOff_others (own others : List α) :
    ((matchOff own others).matched ++ (matchOff own others).leftOver).Perm others := by
  induction own generalizing others with
  | nil => rfl
  | cons item rest ih =>
    rw [matchOff]
    split
    · rename_i found
      exact ((ih _).cons item).trans (List.perm_cons_erase found).symm
    · exact ih _

theorem matchOff_of_perm {own others : List α} (same : own.Perm others) :
    (matchOff own others).missing = [] ∧ (matchOff own others).leftOver = [] := by
  induction own generalizing others with
  | nil => exact ⟨rfl, same.symm.eq_nil⟩
  | cons item rest ih =>
    obtain ⟨found, rest_perm⟩ := List.cons_perm_iff_perm_erase.mp same
    rw [matchOff, if_pos found]
    exact ih rest_perm

theorem matchOff_exact_iff {own others : List α} :
    (matchOff own others).missing = [] ∧ (matchOff own others).leftOver = [] ↔ own.Perm others := by
  refine ⟨fun ⟨noneMissing, noneLeft⟩ => ?_, matchOff_of_perm⟩
  have isOwn := matchOff_own own others
  have isOthers := matchOff_others own others
  rw [noneMissing, List.append_nil] at isOwn
  rw [noneLeft, List.append_nil] at isOthers
  exact isOwn.symm.trans isOthers

end Lists

/-! ## Tables -/

section Tables

variable {κ α M : Type*} [DecidableEq κ] [AddCommMonoid M]

theorem keys_under (key : κ) (values : List α) (table : List (κ × List α)) :
    (under key values table).map Prod.fst =
      if key ∈ table.map Prod.fst then table.map Prod.fst else table.map Prod.fst ++ [key] := by
  induction table with
  | nil => simp [under]
  | cons entry rest ih =>
    obtain ⟨other, values⟩ := entry
    rw [under]
    by_cases same : other = key
    · simp [same]
    · have notHere : key ≠ other := fun isKey => same isKey.symm
      rw [if_neg same, List.map_cons, ih]
      by_cases later : key ∈ rest.map Prod.fst
      · have present : key ∈ ((other, values) :: rest).map Prod.fst := List.mem_cons_of_mem _ later
        rw [if_pos later, if_pos present, List.map_cons]
      · have absent : key ∉ ((other, values) :: rest).map Prod.fst := by
          rw [List.map_cons, List.mem_cons, not_or]
          exact ⟨notHere, later⟩
        rw [if_neg later, if_neg absent, List.map_cons, List.cons_append]

theorem nodup_keys_group (items : List (κ × List α)) : ((group items).map Prod.fst).Nodup := by
  have step (items table : List (κ × List α)) (nodup : (table.map Prod.fst).Nodup) :
      ((items.foldl (fun table item => under item.1 item.2 table) table).map Prod.fst).Nodup := by
    induction items generalizing table with
    | nil => exact nodup
    | cons item items ih =>
      rw [List.foldl_cons]
      apply ih
      rw [keys_under]
      split
      · exact nodup
      · rename_i isNew
        exact (List.perm_append_singleton _ _).nodup_iff.mpr (List.nodup_cons.mpr ⟨isNew, nodup⟩)
  exact step items [] List.nodup_nil

theorem lookup_eq_none_iff {key : κ} {table : List (κ × List α)} :
    lookup key table = none ↔ key ∉ table.map Prod.fst := by
  rw [lookup, Option.map_eq_none_iff, List.find?_eq_none, List.mem_map]
  constructor
  · rintro absent ⟨entry, member, isKey⟩
    exact absent entry member (decide_eq_true isKey)
  · intro absent entry member isKey
    exact absent ⟨entry, member, of_decide_eq_true isKey⟩

theorem lookup_eq_some_iff {key : κ} {values : List α} {table : List (κ × List α)}
    (nodup : (table.map Prod.fst).Nodup) :
    lookup key table = some values ↔ (key, values) ∈ table := by
  constructor
  · intro found
    obtain ⟨entry, isFound, isValues⟩ := Option.map_eq_some_iff.mp found
    obtain ⟨key', values'⟩ := entry
    have isKey : key' = key := by simpa using List.find?_some isFound
    have member := List.mem_of_find?_eq_some isFound
    cases isKey
    cases isValues
    exact member
  · intro member
    cases found : lookup key table with
    | none => exact absurd (List.mem_map.mpr ⟨_, member, rfl⟩) (lookup_eq_none_iff.mp found)
    | some others =>
      obtain ⟨entry, isFound, isOthers⟩ := Option.map_eq_some_iff.mp found
      have isKey : entry.1 = key := by simpa using List.find?_some isFound
      have same := List.inj_on_of_nodup_map nodup (List.mem_of_find?_eq_some isFound) member isKey
      rw [← isOthers, same]

theorem sum_at (weight : κ → List α → M) (key : κ) {table : List (κ × List α)}
    (nodup : (table.map Prod.fst).Nodup) :
    (table.map (fun entry => if entry.1 = key then weight entry.1 entry.2 else 0)).sum =
      (lookup key table).elim 0 (weight key) := by
  induction table with
  | nil => rfl
  | cons entry rest ih =>
    obtain ⟨other, values⟩ := entry
    rw [List.map_cons, List.nodup_cons] at nodup
    rw [List.map_cons, List.sum_cons, ih nodup.2]
    by_cases same : other = key
    · subst same
      have absent : lookup other rest = none := lookup_eq_none_iff.mpr nodup.1
      rw [absent, if_pos rfl, lookup_cons_eq, if_pos rfl]
      exact add_zero _
    · have notKey : key ≠ other := fun isKey => same isKey.symm
      rw [if_neg same, zero_add, lookup_cons_eq, if_neg notKey]

theorem sum_lookup (weight : κ → List α → M) {own others : List (κ × List α)}
    (nodupOwn : (own.map Prod.fst).Nodup) (nodup : (others.map Prod.fst).Nodup) :
    (own.map (fun entry => (lookup entry.1 others).elim 0 (weight entry.1))).sum =
      (others.map (fun entry =>
        if (lookup entry.1 own).isSome then weight entry.1 entry.2 else 0)).sum := by
  induction own with
  | nil => simp
  | cons entry rest ih =>
    rw [List.map_cons, List.nodup_cons] at nodupOwn
    rw [List.map_cons, List.sum_cons, ih nodupOwn.2,
      ← sum_at weight entry.1 nodup, ← List.sum_map_add]
    refine congrArg List.sum (List.map_congr_left fun other _ => ?_)
    obtain ⟨key, values⟩ := entry
    by_cases here : other.1 = key
    · have notLater : lookup other.1 rest = none := by
        rw [lookup_eq_none_iff, here]
        exact nodupOwn.1
      rw [lookup_cons_eq, if_pos here, if_pos here, notLater, if_neg (by simp), add_zero]
      rfl
    · rw [lookup_cons_eq, if_neg here, if_neg here, zero_add]

end Tables

end Nmas.Outline
