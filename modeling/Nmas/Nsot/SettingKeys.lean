import Nmas.Nsot.Sections

/-!
Owns: which setting a line sets (`deploy._command_keys`) and which line of a
section sets the same one (`_negation_pair`, and the search `classify_diff`
calls `_counterpart` and `rollback_commands` calls `_previous`).

The source indexes the held lines in dictionaries filled with `setdefault`. A
look-up here is a search of the held lines in order: the first hit is what
`setdefault` kept, the whole list is what was appended.
-/

namespace Nmas.Nsot

open Nmas.Text List
open Nmas.Nsot.IfNames

def noWord : Str := "no".ascii

/-- `_command_keys`: the precise and the broad key of the setting a line sets. -/
def commandKeys (leaf : Leaf) : Str × Str :=
  match words leaf.line with
  | [] => ([], [])
  | first :: rest =>
    if first = noWord then
      -- A `no` form takes no value: its key is all of its words.
      match rest with
      | [] => ([], [])
      | second :: _ => (joinWords rest, second)
    else (if rest = [] then first else joinWords (first :: rest).dropLast, first)

/-- Is a line the `no` form of exactly these words? -/
def isNegationOf (key : Str) (leaf : Leaf) : Bool :=
  match words leaf.line with
  | first :: second :: rest => first = noWord && joinWords (second :: rest) = key
  | _ => false

/-- Is a line positive, with these words in front? -/
def leadsWith (key : Str) (leaf : Leaf) : Bool :=
  (words leaf.line).head? != some noWord &&
    (List.range (words leaf.line).length).any
      (fun count => joinWords ((words leaf.line).take (count + 1)) = key)

/-- Do the lines stand on the two sides of a negation of one setting? -/
def isNegationPair (line : Str) (other : Leaf) : Bool :=
  match words line with
  | [] => false
  | first :: rest =>
    if first = noWord then leadsWith (joinWords rest) other
    else (List.range (first :: rest).length).any
      (fun count => isNegationOf (joinWords ((first :: rest).take (count + 1))) other)

section Index

variable (held : List Leaf) (chain : List Str)

/-- The held lines of a section that satisfy a test, in order. -/
def heldWhere (test : Leaf → Bool) : List Str :=
  (held.filter (fun leaf => leaf.chain = chain && test leaf)).map Leaf.line

/-- `precise_all`: the held lines with a precise key. -/
def preciseAll (key : Str) : List Str :=
  heldWhere held chain (fun leaf => (commandKeys leaf).1 = key)

/-- `broad_index`: the held lines with a broad key. -/
def broadAll (key : Str) : List Str := heldWhere held chain (fun leaf => (commandKeys leaf).2 = key)

/-- `negations`: the held `no` lines whose remainder is `key`. -/
def negationsOf (key : Str) : List Str := heldWhere held chain (isNegationOf key)

/-- `prefixes`: the held positive lines that `key` is a leading run of words of. -/
def prefixesOf (key : Str) : List Str := heldWhere held chain (leadsWith key)

/-- `_negation_pair`: the line on the other side of a negation that sets the
same thing. A `no` line pairs only with a unique positive; a positive line
takes its longest matching negation. -/
def negationPair (canonical : Str) : Option Str :=
  match words canonical with
  | [] => none
  | first :: rest =>
    if first = noWord then
      match prefixesOf held chain (joinWords rest) with
      | [only] => some only
      | _ => none
    else
      (List.range (first :: rest).length).reverse.findSome? (fun count =>
        (negationsOf held chain (joinWords ((first :: rest).take (count + 1)))).head?)

/-- `_previous`: the held line setting the same thing, with the held lines its
key matched. The second is empty for a negation pair. -/
def previous (canonical : Str) : Option (Str × List Str) :=
  match preciseAll held chain (commandKeys ⟨canonical, chain⟩).1 with
  | hit :: more => some (hit, hit :: more)
  | [] =>
    match negationPair held chain canonical with
    | some hit => some (hit, [])
    | none =>
      if (commandKeys ⟨canonical, chain⟩).2 ∈ freeFormCommands then
        match broadAll held chain (commandKeys ⟨canonical, chain⟩).2 with
        | [only] => some (only, [only])
        | _ => none
      else none

/-- `_counterpart`: the held line setting the same thing. -/
def counterpart (canonical : Str) : Option Str := (previous held chain canonical).map Prod.fst

end Index

/-! ### What a search finds is held -/

section Found

variable {held : List Leaf} {chain : List Str}

theorem mem_heldWhere {test : Leaf → Bool} {line : Str} :
    line ∈ heldWhere held chain test ↔ ⟨line, chain⟩ ∈ held ∧ test ⟨line, chain⟩ := by
  unfold heldWhere
  simp only [mem_map, mem_filter, Bool.and_eq_true, decide_eq_true_eq]
  constructor
  · rintro ⟨leaf, ⟨member, rfl, passes⟩, rfl⟩
    exact ⟨member, passes⟩
  · rintro ⟨member, passes⟩
    exact ⟨_, ⟨member, rfl, passes⟩, rfl⟩

private theorem held_of_negationPair {canonical hit : Str}
    (found : negationPair held chain canonical = some hit) : ⟨hit, chain⟩ ∈ held := by
  unfold negationPair at found
  split at found
  · cases found
  · split_ifs at found
    · split at found
      · rename_i only single
        cases found
        exact (mem_heldWhere.mp (by rw [prefixesOf] at single; rw [single]; simp)).1
      · cases found
    · obtain ⟨count, _, first⟩ := exists_of_findSome?_eq_some found
      exact (mem_heldWhere.mp (mem_of_head? first)).1

theorem held_of_previous {canonical hit : Str} {matched : List Str}
    (found : previous held chain canonical = some (hit, matched)) : ⟨hit, chain⟩ ∈ held := by
  unfold previous at found
  split at found
  · rename_i first more matches_
    cases found
    exact (mem_heldWhere.mp (by rw [preciseAll] at matches_; rw [matches_]; simp)).1
  · split at found
    · rename_i pair
      cases found
      exact held_of_negationPair pair
    · split_ifs at found
      split at found
      · rename_i only single
        cases found
        exact (mem_heldWhere.mp (by rw [broadAll] at single; rw [single]; simp)).1
      · cases found

theorem held_of_counterpart {canonical hit : Str}
    (found : counterpart held chain canonical = some hit) : ⟨hit, chain⟩ ∈ held := by
  obtain ⟨⟨_, matched⟩, searched, rfl⟩ := Option.map_eq_some_iff.mp found
  exact held_of_previous searched

theorem counterpart_of_empty_section (empty : ∀ leaf ∈ held, leaf.chain ≠ chain)
    (canonical : Str) : counterpart held chain canonical = none := by
  cases found : counterpart held chain canonical with
  | none => rfl
  | some hit => exact absurd rfl (empty _ (held_of_counterpart found))

end Found

/-! ### The only line of a section that sets the same thing -/

section Unique

variable {held : List Leaf} {chain : List Str}

/-- Two lines set the same thing: by the precise key, across a negation, or by
the first word of a free-form command. -/
def setsSame (line : Str) (other : Leaf) : Bool :=
  (commandKeys other).1 = (commandKeys ⟨line, other.chain⟩).1 || isNegationPair line other ||
    ((commandKeys ⟨line, other.chain⟩).2 ∈ freeFormCommands &&
      (commandKeys other).2 = (commandKeys ⟨line, other.chain⟩).2)

private theorem isNegationPair_of_negationPair {line hit : Str}
    (found : negationPair held chain line = some hit) : isNegationPair line ⟨hit, chain⟩ := by
  unfold negationPair at found
  cases split : words line with
  | nil => simp [split] at found
  | cons first rest =>
    simp only [split] at found
    by_cases isNo : first = noWord
    · simp only [isNo, if_true] at found
      split at found
      · rename_i only single
        cases found
        have inFilter : hit ∈ prefixesOf held chain (joinWords rest) := by rw [single]; simp
        have leads := (mem_heldWhere.mp inFilter).2
        simpa [isNegationPair, split, isNo] using leads
      · cases found
    · simp only [isNo, if_false] at found
      obtain ⟨count, inRange, first_⟩ := exists_of_findSome?_eq_some found
      have negates := (mem_heldWhere.mp (mem_of_head? first_)).2
      simp only [isNegationPair, split, isNo, if_false, any_eq_true]
      exact ⟨count, mem_reverse.mp inRange, negates⟩

theorem setsSame_of_previous {line hit : Str} {matched : List Str}
    (found : previous held chain line = some (hit, matched)) : setsSame line ⟨hit, chain⟩ := by
  unfold previous at found
  split at found
  · rename_i first more matches_
    cases found
    have inFilter : hit ∈ preciseAll held chain (commandKeys ⟨line, chain⟩).1 := by
      rw [matches_]
      simp
    have same := (mem_heldWhere.mp inFilter).2
    have sameKey : (commandKeys ⟨hit, chain⟩).1 = (commandKeys ⟨line, chain⟩).1 :=
      of_decide_eq_true same
    simp [setsSame, sameKey]
  · split at found
    · rename_i pair
      cases found
      simp [setsSame, isNegationPair_of_negationPair pair]
    · split_ifs at found with isFree
      split at found
      · rename_i only single
        cases found
        have inFilter : hit ∈ broadAll held chain (commandKeys ⟨line, chain⟩).2 := by
          rw [single]
          simp
        have same := (mem_heldWhere.mp inFilter).2
        have sameKey : (commandKeys ⟨hit, chain⟩).2 = (commandKeys ⟨line, chain⟩).2 :=
          of_decide_eq_true same
        simp [setsSame, sameKey, isFree]
      · cases found

private theorem heldWhere_eq_filter {strong weak : Leaf → Bool}
    (weaker : ∀ leaf, strong leaf → weak leaf) :
    heldWhere held chain strong =
      (heldWhere held chain weak).filter (fun line => strong ⟨line, chain⟩) := by
  unfold heldWhere
  rw [filter_map, filter_filter]
  congr 1
  refine filter_congr fun leaf _ => ?_
  by_cases here : leaf.chain = chain
  · have same : (⟨leaf.line, chain⟩ : Leaf) = leaf := by rw [← here]
    simp only [Function.comp_apply, here, same, decide_true, Bool.true_and]
    cases passes : strong leaf with
    | false => simp
    | true => simp [weaker leaf passes]
  · simp [here]

private theorem heldWhere_of_unique {strong weak : Leaf → Bool} {only : Str}
    (unique : heldWhere held chain weak = [only]) (weaker : ∀ leaf, strong leaf → weak leaf) :
    heldWhere held chain strong = if strong ⟨only, chain⟩ = true then [only] else [] := by
  rw [heldWhere_eq_filter weaker, unique]
  split_ifs with passes <;> simp [passes]

private theorem negationPair_of_unique {line only : Str}
    (unique : heldWhere held chain (setsSame line) = [only]) :
    negationPair held chain line =
      if isNegationPair line ⟨only, chain⟩ = true then some only else none := by
  have weaker : ∀ leaf, isNegationPair line leaf → setsSame line leaf := by
    intro leaf paired
    simp [setsSame, paired]
  unfold negationPair
  cases split : words line with
  | nil => simp [isNegationPair, split]
  | cons first rest =>
    by_cases isNo : first = noWord
    · have found : heldWhere held chain (leadsWith (joinWords rest)) =
          if leadsWith (joinWords rest) ⟨only, chain⟩ = true then [only] else [] :=
        heldWhere_of_unique unique
          (fun leaf leads => weaker leaf (by simpa [isNegationPair, split, isNo] using leads))
      simp only [isNo, if_true, prefixesOf, found, isNegationPair, split]
      split_ifs <;> rfl
    · have found : ∀ count ∈ (List.range (first :: rest).length).reverse,
          negationsOf held chain (joinWords ((first :: rest).take (count + 1))) =
            if isNegationOf (joinWords ((first :: rest).take (count + 1))) ⟨only, chain⟩ = true
            then [only] else [] := by
        intro count member
        refine heldWhere_of_unique unique fun leaf negates => weaker leaf ?_
        simp only [isNegationPair, split, isNo, if_false, any_eq_true]
        exact ⟨count, mem_reverse.mp member, negates⟩
      simp only [isNo, if_false, isNegationPair, split, any_eq_true]
      split_ifs with paired
      · obtain ⟨count, member, negates⟩ := paired
        cases searched : (List.range (first :: rest).length).reverse.findSome? (fun count =>
            (negationsOf held chain (joinWords ((first :: rest).take (count + 1)))).head?) with
        | none =>
          have missed := List.findSome?_eq_none_iff.mp searched count (mem_reverse.mpr member)
          rw [found count (mem_reverse.mpr member), if_pos negates] at missed
          cases missed
        | some hit =>
          obtain ⟨other, inRange, hitHere⟩ := exists_of_findSome?_eq_some searched
          rw [found other inRange] at hitHere
          split_ifs at hitHere
          · exact hitHere.symm
          · cases hitHere
      · refine List.findSome?_eq_none_iff.mpr fun count member => ?_
        rw [found count member, if_neg (fun negates =>
          paired ⟨count, mem_reverse.mp member, negates⟩)]
        rfl

theorem previous_of_unique {line only : Str}
    (unique : heldWhere held chain (setsSame line) = [only]) :
    ∃ matched, previous held chain line = some (only, matched) ∧
      (matched = [] ∨ matched = [only]) := by
  have passes : setsSame line ⟨only, chain⟩ := (mem_heldWhere.mp (by rw [unique]; simp)).2
  have precise : preciseAll held chain (commandKeys ⟨line, chain⟩).1 =
      if (commandKeys ⟨only, chain⟩).1 = (commandKeys ⟨line, chain⟩).1 then [only] else [] := by
    rw [preciseAll, heldWhere_of_unique unique]
    · simp
    · intro leaf same
      have sameKey : (commandKeys leaf).1 = (commandKeys ⟨line, leaf.chain⟩).1 :=
        of_decide_eq_true same
      simp [setsSame, sameKey]
  unfold previous
  rw [precise]
  by_cases samePrecise : (commandKeys ⟨only, chain⟩).1 = (commandKeys ⟨line, chain⟩).1
  · rw [if_pos samePrecise]
    exact ⟨[only], rfl, .inr rfl⟩
  · rw [if_neg samePrecise, negationPair_of_unique unique]
    by_cases paired : isNegationPair line ⟨only, chain⟩ = true
    · rw [if_pos paired]
      exact ⟨[], rfl, .inl rfl⟩
    · have free : (commandKeys ⟨line, chain⟩).2 ∈ freeFormCommands ∧
          (commandKeys ⟨only, chain⟩).2 = (commandKeys ⟨line, chain⟩).2 := by
        simpa [setsSame, samePrecise, paired] using passes
      have broad : broadAll held chain (commandKeys ⟨line, chain⟩).2 = [only] := by
        rw [broadAll, heldWhere_of_unique unique]
        · simp [free.2]
        · intro leaf same
          have sameKey : (commandKeys leaf).2 = (commandKeys ⟨line, leaf.chain⟩).2 :=
            of_decide_eq_true same
          have isFree : (commandKeys ⟨line, leaf.chain⟩).2 ∈ freeFormCommands := free.1
          simp [setsSame, sameKey, isFree]
      rw [if_neg paired]
      simp only [if_pos free.1, broad]
      exact ⟨[only], rfl, .inr rfl⟩

end Unique

end Nmas.Nsot
