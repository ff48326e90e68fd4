import Mathlib.Data.List.Infix

/-!
Contract: command programs for a mode machine.

The machine keeps a stack of open levels. A command whose path is a container
opens the level it names; the exit command leaves one level. `emit` is the
generator every sender of this shape uses: it walks lines paired with the level
each belongs to, re-enters a level from the top when it changes, and leaves
everything at the end.

The result owned here is that generator and machine agree: a run of an emitted
program never leaves a level that is not open, ends with nothing open, and runs
each line in its own level, with the level headers as the only other commands.
-/

namespace Nmas.Outline

open List

variable {α : Type*}

/-! ### The generator -/

def leave (exit : α) (level : List α) : List α := List.replicate level.length exit

/-- From level `current` to level `target`: nothing when it is the same one,
otherwise out of everything and in again from the top. -/
def moveTo [DecidableEq α] (exit : α) (current target : List α) : List α :=
  if target = current then [] else leave exit current ++ target

def after (opens : List α → Bool) (level : List α) (line : α) : List α :=
  if opens (level ++ [line]) then level ++ [line] else level

/-- The program for lines paired with their levels, starting in `current`. -/
def emitFrom [DecidableEq α] (opens : List α → Bool) (exit : α) (current : List α) :
    List (List α × α) → List α
  | [] => leave exit current
  | (level, line) :: rest =>
    moveTo exit current level ++ line :: emitFrom opens exit (after opens level line) rest

/-- The program for lines paired with their levels. -/
def emit [DecidableEq α] (opens : List α → Bool) (exit : α) (lines : List (List α × α)) : List α :=
  emitFrom opens exit [] lines

/-! ### The machine -/

/-- Run a program: every command that is not an exit with the stack it ran in,
and the stack at the end; nothing when an exit finds no open level. -/
def run (opens : List α → Bool) (isExit : α → Bool) (stack : List α) :
    List α → Option (List (List α × α) × List α)
  | [] => some ([], stack)
  | command :: rest =>
    if isExit command then
      if stack = [] then none else run opens isExit stack.dropLast rest
    else
      (run opens isExit (after opens stack command) rest).map
        (fun done => ((stack, command) :: done.1, done.2))

def entering (level : List α) : List (List α × α) := level.inits.zip level

/-- What the machine executes on an emitted program. -/
def traceFrom [DecidableEq α] (opens : List α → Bool) (current : List α) :
    List (List α × α) → List (List α × α)
  | [] => []
  | (level, line) :: rest =>
    (if level = current then [] else entering level) ++
      (level, line) :: traceFrom opens (after opens level line) rest

section Agreement

variable {opens : List α → Bool} {isExit : α → Bool} {exit : α}

theorem run_leave (exits : isExit exit) (level program : List α) :
    run opens isExit level (leave exit level ++ program) = run opens isExit [] program := by
  induction level using List.reverseRecOn with
  | nil => rfl
  | append_singleton shorter last ih =>
    have unfolded : leave exit (shorter ++ [last]) = exit :: leave exit shorter := by
      simp [leave, replicate_succ]
    rw [unfolded, cons_append, run, if_pos exits, if_neg (by simp), dropLast_concat]
    exact ih

theorem run_enter {level : List α} (program : List α)
    (notExit : ∀ header ∈ level, isExit header = false)
    (container : ∀ above header, above ++ [header] <+: level → opens (above ++ [header]))
    (stack : List α) (below : List α) (split : level = stack ++ below) :
    run opens isExit stack (below ++ program) =
      (run opens isExit level program).map
        (fun done => ((level.inits.drop stack.length).zip below ++ done.1, done.2)) := by
  induction below generalizing stack with
  | nil =>
    rw [append_nil] at split
    subst split
    simp
  | cons header below ih =>
    have isPrefix : stack ++ [header] <+: level := ⟨below, by simp [split]⟩
    have isMember : header ∈ level := by simp [split]
    have dropped : level.inits.drop stack.length =
        stack :: level.inits.drop (stack ++ [header]).length := by
      have inBounds : stack.length < level.inits.length := by
        rw [length_inits, split, length_append, length_cons]
        omega
      rw [drop_eq_getElem_cons inBounds]
      simp [getElem_inits, split]
    rw [cons_append, run, notExit header isMember, if_neg (by simp), after,
      if_pos (container stack header isPrefix),
      ih (stack ++ [header]) (by simp [split]), dropped, Option.map_map]
    rfl

/-- **Generator and machine agree.** From the level the generator believes is
open, an emitted program runs to the empty stack and executes exactly its
trace. -/
theorem run_emitFrom [DecidableEq α] (exits : isExit exit) (lines : List (List α × α)) (current : List α)
    (notExit : ∀ pair ∈ lines, isExit pair.2 = false ∧ ∀ header ∈ pair.1, isExit header = false)
    (container : ∀ pair ∈ lines, ∀ above header, above ++ [header] <+: pair.1 →
      opens (above ++ [header])) :
    run opens isExit current (emitFrom opens exit current lines) =
      some (traceFrom opens current lines, []) := by
  induction lines generalizing current with
  | nil =>
    have closed : run opens isExit current (leave exit current ++ []) = run opens isExit [] [] :=
      run_leave exits current []
    rw [append_nil] at closed
    rw [emitFrom, closed, run, traceFrom]
  | cons pair rest ih =>
    obtain ⟨level, line⟩ := pair
    have lineNotExit := (notExit (level, line) (by simp)).1
    have headersNotExit := (notExit (level, line) (by simp)).2
    have onLine : run opens isExit level
        (line :: emitFrom opens exit (after opens level line) rest) =
          some ((level, line) :: traceFrom opens (after opens level line) rest, []) := by
      rw [run, lineNotExit, if_neg (by simp),
        ih _ (fun other member => notExit other (.tail _ member))
          (fun other member => container other (.tail _ member))]
      rfl
    rw [emitFrom, traceFrom, moveTo]
    by_cases same : level = current
    · subst same
      simpa using onLine
    · rw [if_neg same, if_neg same, append_assoc, run_leave exits,
        run_enter _ headersNotExit (container (level, line) (by simp)) [] level rfl, onLine]
      simp [entering]

theorem prefix_of_mem_entering {level stack : List α} {header : α}
    (member : (stack, header) ∈ entering level) : stack ++ [header] <+: level := by
  obtain ⟨index, inBounds, found⟩ := mem_iff_getElem.mp member
  have inLevel : index < level.length := by
    simp only [entering, length_zip, length_inits] at inBounds
    omega
  simp only [entering, getElem_zip, getElem_inits, Prod.mk.injEq] at found
  rw [← found.1, ← found.2, ← take_succ_eq_append_getElem inLevel]
  exact take_prefix _ _

theorem mem_traceFrom_of_mem [DecidableEq α] {lines : List (List α × α)} {pair : List α × α} (current : List α)
    (member : pair ∈ lines) : pair ∈ traceFrom opens current lines := by
  induction lines generalizing current with
  | nil => cases member
  | cons head rest ih =>
    rw [traceFrom]
    rcases mem_cons.mp member with rfl | later
    · simp
    · simp [ih (after opens head.1 head.2) later]

theorem mem_of_mem_traceFrom [DecidableEq α] {lines : List (List α × α)} {current stack : List α}
    {command : α} (member : (stack, command) ∈ traceFrom opens current lines) :
    (stack, command) ∈ lines ∨ ∃ pair ∈ lines, stack ++ [command] <+: pair.1 := by
  induction lines generalizing current with
  | nil => cases member
  | cons head rest ih =>
    obtain ⟨level, line⟩ := head
    rw [traceFrom, mem_append, mem_cons] at member
    rcases member with entered | here | later
    · split_ifs at entered
      · cases entered
      · exact .inr ⟨(level, line), by simp, prefix_of_mem_entering entered⟩
    · exact .inl (by simp [here])
    · rcases ih later with found | ⟨pair, pairMember, isPrefix⟩
      · exact .inl (.tail _ found)
      · exact .inr ⟨pair, .tail _ pairMember, isPrefix⟩

theorem mem_emitFrom [DecidableEq α] {lines : List (List α × α)} {current : List α} {command : α}
    (member : command ∈ emitFrom opens exit current lines) :
    command = exit ∨ ∃ pair ∈ lines, command = pair.2 ∨ command ∈ pair.1 := by
  have ofLeave : ∀ level : List α, command ∈ leave exit level → command = exit :=
    fun level inside => eq_of_mem_replicate inside
  induction lines generalizing current with
  | nil => exact .inl (ofLeave current member)
  | cons head rest ih =>
    obtain ⟨level, line⟩ := head
    rw [emitFrom, mem_append, mem_cons] at member
    rcases member with moved | rfl | later
    · unfold moveTo at moved
      split_ifs at moved
      · cases moved
      · rcases mem_append.mp moved with left | entered
        · exact .inl (ofLeave current left)
        · exact .inr ⟨(level, line), .head _, .inr entered⟩
    · exact .inr ⟨(level, command), .head _, .inl rfl⟩
    · refine (ih later).imp_right fun ⟨pair, inRest, source⟩ => ?_
      exact ⟨pair, .tail _ inRest, source⟩

theorem forall_mem_emitFrom [DecidableEq α] {P : α → Prop} {lines : List (List α × α)}
    {current : List α} (ofExit : P exit) (ofCurrent : ∀ header ∈ current, P header) :
    (∀ command ∈ emitFrom opens exit current lines, P command) ↔
      ∀ pair ∈ lines, P pair.2 ∧ ∀ header ∈ pair.1, P header := by
  constructor
  · intro every
    induction lines generalizing current with
    | nil => exact nofun
    | cons head rest ih =>
      obtain ⟨level, line⟩ := head
      rw [emitFrom] at every
      have ofLine : P line := every line (mem_append_right _ (.head _))
      have ofLevel : ∀ header ∈ level, P header := by
        intro header inside
        by_cases same : level = current
        · exact ofCurrent header (same ▸ inside)
        · refine every header (mem_append_left _ ?_)
          rw [moveTo, if_neg same]
          exact mem_append_right _ inside
      have ofAfter : ∀ header ∈ after opens level line, P header := by
        intro header inside
        unfold after at inside
        split_ifs at inside
        · rcases mem_append.mp inside with above | isLine
          · exact ofLevel header above
          · exact mem_singleton.mp isLine ▸ ofLine
        · exact ofLevel header inside
      refine forall_mem_cons.mpr ⟨⟨ofLine, ofLevel⟩, ih ofAfter ?_⟩
      exact fun command inRest =>
        every command (mem_append_right _ (.tail _ inRest))
  · intro ofLines command member
    rcases mem_emitFrom member with rfl | ⟨pair, isPair, rfl | isHeader⟩
    · exact ofExit
    · exact (ofLines pair isPair).1
    · exact (ofLines pair isPair).2 command isHeader

theorem mem_entering_iff {level stack : List α} {header : α} :
    (stack, header) ∈ entering level ↔ stack ++ [header] <+: level := by
  constructor
  · exact prefix_of_mem_entering
  · rintro ⟨below, rfl⟩
    rw [append_assoc, singleton_append, entering, mem_iff_getElem]
    have inBounds : stack.length < ((stack ++ header :: below).inits.zip
        (stack ++ header :: below)).length := by
      simp only [length_zip, length_inits, length_append, length_cons]
      omega
    refine ⟨stack.length, inBounds, ?_⟩
    simp [getElem_inits]

theorem forall_mem_traceFrom [DecidableEq α] {P : List α × α → Prop} {lines : List (List α × α)}
    {current : List α}
    (ofCurrent : ∀ above header, above ++ [header] <+: current → P (above, header)) :
    (∀ executed ∈ traceFrom opens current lines, P executed) ↔
      ∀ pair ∈ lines, P pair ∧ ∀ above header, above ++ [header] <+: pair.1 → P (above, header) := by
  constructor
  · intro every
    induction lines generalizing current with
    | nil => exact nofun
    | cons head rest ih =>
      obtain ⟨level, line⟩ := head
      rw [traceFrom] at every
      have ofLine : P (level, line) := every _ (mem_append_right _ (.head _))
      have ofLevel : ∀ above header, above ++ [header] <+: level → P (above, header) := by
        intro above header isPrefix
        by_cases same : level = current
        · exact ofCurrent above header (same ▸ isPrefix)
        · refine every _ (mem_append_left _ ?_)
          rw [if_neg same]
          exact mem_entering_iff.mpr isPrefix
      have ofAfter : ∀ above header, above ++ [header] <+: after opens level line →
          P (above, header) := by
        intro above header isPrefix
        unfold after at isPrefix
        split_ifs at isPrefix
        · rcases prefix_concat_iff.mp isPrefix with whole | shorter
          · obtain ⟨rfl, sameLine⟩ := append_inj' whole rfl
            exact singleton_inj.mp sameLine ▸ ofLine
          · exact ofLevel above header shorter
        · exact ofLevel above header isPrefix
      refine forall_mem_cons.mpr ⟨⟨ofLine, ofLevel⟩, ih ofAfter ?_⟩
      exact fun executed inRest =>
        every executed (mem_append_right _ (.tail _ inRest))
  · rintro ofLines ⟨stack, command⟩ member
    rcases mem_of_mem_traceFrom member with isLine | ⟨pair, isPair, isPrefix⟩
    · exact (ofLines _ isLine).1
    · exact (ofLines pair isPair).2 stack command isPrefix

theorem emit_eq_nil_iff [DecidableEq α] {lines : List (List α × α)} :
    emit opens exit lines = [] ↔ lines = [] := by
  cases lines with
  | nil => simp [emit, emitFrom, leave]
  | cons head rest => simp [emit, emitFrom]

end Agreement

end Nmas.Outline
