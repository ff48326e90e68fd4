import Nmas.Outline.Chains
import Nmas.Outline.Modes

/-!
Contract: what is held after a program is run.

A store takes each line once in its level. An emitted program enters a level by
its headers again and again; where every header is itself one of the lines sent
and comes before what sits under it, that adds nothing, and the store ends with
the lines in the order they were sent.
-/

namespace Nmas.Outline

open List

variable {α : Type*}

def take [DecidableEq α] (held : List (List α × α)) (pair : List α × α) : List (List α × α) :=
  if pair ∈ held then held else held ++ [pair]

def HeadersFirst (held lines : List (List α × α)) : Prop :=
  ∀ before pair after, lines = before ++ pair :: after → ∀ above header,
    above ++ [header] <+: pair.1 → (above, header) ∈ held ++ before

section Take

variable [DecidableEq α] {opens : List α → Bool} {held lines : List (List α × α)} {current : List α}

theorem take_of_mem {pair : List α × α} (member : pair ∈ held) : take held pair = held :=
  if_pos member

theorem foldl_take_of_mem {entered : List (List α × α)} (members : ∀ pair ∈ entered, pair ∈ held) :
    entered.foldl take held = held := by
  induction entered with
  | nil => rfl
  | cons pair entered ih =>
    rw [foldl_cons, take_of_mem (members pair mem_cons_self)]
    exact ih (fun other member => members other (.tail _ member))

theorem foldl_take_traceFrom (first : HeadersFirst held lines) (distinct : lines.Nodup)
    (new : ∀ pair ∈ lines, pair ∉ held) :
    (traceFrom opens current lines).foldl take held = held ++ lines := by
  induction lines generalizing held current with
  | nil => rw [traceFrom, foldl_nil, append_nil]
  | cons pair lines ih =>
    obtain ⟨level, line⟩ := pair
    obtain ⟨notLater, distinctLater⟩ := nodup_cons.mp distinct
    have isNew : (level, line) ∉ held := new _ (.head _)
    have entered : ∀ other ∈ (if level = current then [] else entering level), other ∈ held := by
      intro other member
      split at member
      · cases member
      · obtain ⟨above, header⟩ := other
        have isHeld := first [] (level, line) lines rfl above header (prefix_of_mem_entering member)
        rwa [append_nil] at isHeld
    have taken : take held (level, line) = held ++ [(level, line)] := if_neg isNew
    rw [traceFrom, foldl_append, foldl_take_of_mem entered, foldl_cons, taken,
      ih ?_ distinctLater ?_, append_assoc]
    · rfl
    · intro before other after isSplit above header isPrefix
      have isFirst := first ((level, line) :: before) other after
        (by rw [isSplit, cons_append]) above header isPrefix
      simpa using isFirst
    · intro other member inHeld
      rcases mem_append.mp inHeld with before | isLine
      · exact new other (.tail _ member) before
      · rw [mem_singleton.mp isLine] at member
        exact notLater member

end Take

/-! ### One program after another -/

theorem run_append {opens : List α → Bool} {isExit : α → Bool} (stack before after : List α) :
    run opens isExit stack (before ++ after) =
      (run opens isExit stack before).bind (fun done =>
        (run opens isExit done.2 after).map (fun later => (done.1 ++ later.1, later.2))) := by
  induction before generalizing stack with
  | nil =>
    rw [nil_append, run, Option.bind_some]
    cases run opens isExit stack after <;> rfl
  | cons command before ih =>
    rw [cons_append, run, run]
    split
    · split
      · rfl
      · exact ih _
    · rw [ih, Option.map_bind, Option.bind_map]
      congr 1
      funext done
      simp only [Function.comp_apply, Option.map_map]
      rfl

theorem emitFrom_congr [DecidableEq α] {opens other : List α → Bool} {exit : α} {current : List α}
    {lines : List (List α × α)}
    (alike : ∀ pair ∈ lines, opens (pair.1 ++ [pair.2]) = other (pair.1 ++ [pair.2])) :
    emitFrom opens exit current lines = emitFrom other exit current lines := by
  induction lines generalizing current with
  | nil => rfl
  | cons pair lines ih =>
    obtain ⟨level, line⟩ := pair
    have sameAfter : after opens level line = after other level line := by
      unfold after
      rw [alike (level, line) mem_cons_self]
    rw [emitFrom, emitFrom, sameAfter, ih (fun pair member => alike pair (.tail _ member))]

/-! ### Headers come first in a reading -/

theorem length_chainsFrom (stack lines : List (Nat × α)) :
    (chainsFrom stack lines).length = lines.length := by
  induction lines generalizing stack with
  | nil => rfl
  | cons line lines ih =>
    obtain ⟨depth, value⟩ := line
    rw [chainsFrom, length_cons, ih, length_cons]

theorem map_fst_chainsFrom (stack lines : List (Nat × α)) :
    (chainsFrom stack lines).map Prod.fst = lines.map Prod.snd := by
  induction lines generalizing stack with
  | nil => rfl
  | cons line lines ih =>
    obtain ⟨depth, value⟩ := line
    rw [chainsFrom, map_cons, ih, map_cons]

theorem ancestor_before {lines : List (Nat × α)} {before after : List (α × List α)} {value : α}
    {chain above : List α} {header : α} (isSplit : chains lines = before ++ (value, chain) :: after)
    (isPrefix : above ++ [header] <+: chain) : (header, above) ∈ before := by
  have isShort : before.length < lines.length := by
    have lengths := congrArg List.length isSplit
    rw [chains, length_chainsFrom, length_append, length_cons] at lengths
    omega
  -- the reading of the lines up to and including the entry's own
  obtain ⟨later, goesOn⟩ := chainsFrom_append [] (lines.take (before.length + 1))
  have isAppend := goesOn (lines.drop (before.length + 1))
  rw [take_append_drop] at isAppend
  have upTo : chains (lines.take (before.length + 1)) = before ++ [(value, chain)] := by
    have whole : chains (lines.take (before.length + 1)) ++
        chainsFrom later (lines.drop (before.length + 1)) = (before ++ [(value, chain)]) ++ after := by
      rw [append_assoc, singleton_append, ← isSplit]
      exact isAppend.symm
    refine (append_inj whole ?_).1
    rw [chains, length_chainsFrom, length_take, length_append, length_singleton]
    omega
  have member : (value, chain) ∈ chains (lines.take (before.length + 1)) := by
    rw [upTo]
    simp
  have isRead := ancestor_mem_chains member isPrefix
  rw [upTo] at isRead
  rcases mem_append.mp isRead with earlier | isSelf
  · exact earlier
  · exfalso
    have isChain := congrArg Prod.snd (mem_singleton.mp isSelf)
    dsimp only at isChain
    have short := isPrefix.length_le
    rw [isChain, length_append, length_singleton] at short
    omega

/-! ### One section, then flat lines -/

theorem chainsFrom_flat {stack lines : List (Nat × α)} (flat : ∀ line ∈ lines, line.1 = 0)
    {entry : α × List α} (member : entry ∈ chainsFrom stack lines) :
    entry.2 = [] ∧ ∃ line ∈ lines, line.2 = entry.1 := by
  induction lines generalizing stack with
  | nil => cases member
  | cons line lines ih =>
    obtain ⟨depth, value⟩ := line
    have isFlat : depth = 0 := flat (depth, value) (.head _)
    rw [chainsFrom] at member
    rcases mem_cons.mp member with isEntry | later
    · have closed : closeTo depth stack = [] := by
        unfold closeTo
        rw [dropWhile_eq_nil_iff]
        simp [isFlat]
      rw [isEntry, closed]
      exact ⟨rfl, (depth, value), .head _, rfl⟩
    · obtain ⟨isTop, line, inLines, isValue⟩ := ih
        (fun other inLines => flat other (.tail _ inLines)) later
      exact ⟨isTop, line, .tail _ inLines, isValue⟩

theorem closeTo_outer {depth : Nat} {stack : List (Nat × α)} {header : α}
    (outer : stack.getLast? = some (0, header)) (deep : 0 < depth) :
    (closeTo depth stack).getLast? = some (0, header) := by
  unfold closeTo
  induction stack with
  | nil => cases outer
  | cons entry stack ih =>
    rw [dropWhile_cons]
    split
    · rename_i closes
      cases stack with
      | nil =>
        rw [List.getLast?_singleton] at outer
        cases outer
        simp at closes
        omega
      | cons next stack =>
        rw [List.getLast?_cons_cons] at outer
        exact ih outer
    · exact outer

theorem chainsFrom_section {stack inner flat : List (Nat × α)} {header : α}
    (outer : stack.getLast? = some (0, header)) (deep : ∀ line ∈ inner, 0 < line.1)
    (isFlat : ∀ line ∈ flat, line.1 = 0) {entry : α × List α}
    (member : entry ∈ chainsFrom stack (inner ++ flat)) :
    (entry.2.head? = some header ∧ ∃ line ∈ inner, line.2 = entry.1) ∨
      (entry.2 = [] ∧ ∃ line ∈ flat, line.2 = entry.1) := by
  induction inner generalizing stack with
  | nil => exact .inr (chainsFrom_flat isFlat member)
  | cons line inner ih =>
    obtain ⟨depth, value⟩ := line
    have stays := closeTo_outer outer (deep (depth, value) (.head _))
    rw [cons_append, chainsFrom] at member
    rcases mem_cons.mp member with isEntry | later
    · left
      rw [isEntry]
      refine ⟨?_, (depth, value), .head _, rfl⟩
      unfold ancestors
      rw [List.head?_reverse, List.getLast?_map, stays]
      rfl
    · have opened : ((depth, value) :: closeTo depth stack).getLast? = some (0, header) := by
        cases isRest : closeTo depth stack with
        | nil =>
          rw [isRest] at stays
          cases stays
        | cons next rest =>
          rw [List.getLast?_cons_cons, ← isRest]
          exact stays
      rcases ih opened
        (fun other inLines => deep other (.tail _ inLines)) later with
        ⟨under, line, inInner, isValue⟩ | isTop
      · exact .inl ⟨under, line, .tail _ inInner, isValue⟩
      · exact .inr isTop

end Nmas.Outline
