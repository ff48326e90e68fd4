import Nmas.Outline.Chains
import Nmas.Outline.Modes

/-!
Contract: an emitted program read back by indentation.

A receiver that does not know the modes tells them from the text: a command
sits under the nearest open commands of smaller depth, and an exit closes one.
`read` is that reader. On a program emitted without opening a level on a line,
it sees every line under the level the line was emitted for, provided that the
lines of one level are equally deep (`Evenly`).

Without that the text does not determine the levels: after a shallow line a
deeper one of the same level is taken to sit under it.
-/

namespace Nmas.Outline

open List

variable {α : Type*}

structure Reading (α : Type*) where
  line : α
  level : List α
  isLast : Bool

section Reader

variable (depth : α → Nat) (isExit : α → Bool)

def closesBefore (level : Nat) : List α → Bool
  | [] => true
  | command :: _ => isExit command || depth command ≤ level

def read (opened : List α) : List α → List (Reading α)
  | [] => []
  | command :: rest =>
    if isExit command then read opened.tail rest
    else
      let above := opened.dropWhile (fun header => depth command ≤ depth header)
      ⟨command, above.reverse, closesBefore depth isExit (depth command) rest⟩ ::
        read (command :: above) rest

structure Evenly (lines : List (List α × α)) : Prop where
  notExit : ∀ pair ∈ lines, ∀ line ∈ pair.1 ++ [pair.2], isExit line = false
  nested : ∀ pair ∈ lines, Nested depth (pair.1 ++ [pair.2])
  even : ∀ pair ∈ lines, ∀ other ∈ lines, ∀ above line same,
    above ++ [line] <+: pair.1 ++ [pair.2] → above ++ [same] <+: other.1 ++ [other.2] →
      depth line = depth same

def placedFrom [DecidableEq α] (current : List α) : List (List α × α) → List (Reading α)
  | [] => []
  | (level, line) :: rest =>
    (if level = current then []
      else (entering level).map (fun entered => ⟨entered.2, entered.1, false⟩)) ++
      ⟨line, level, true⟩ :: placedFrom level rest

end Reader

section Reading

variable {depth : α → Nat} {isExit : α → Bool} {exit : α} {lines : List (List α × α)}

theorem read_leave (exits : isExit exit) (opened level rest : List α) :
    read depth isExit opened (leave exit level ++ rest) =
      read depth isExit (opened.drop level.length) rest := by
  induction level generalizing opened with
  | nil => rfl
  | cons header level ih =>
    have split : leave exit (header :: level) = exit :: leave exit level := rfl
    rw [split, cons_append, read, if_pos exits, ih]
    simp

theorem read_closed {command : α} {opened rest : List α} (notExit : isExit command = false)
    (closed : ∀ header ∈ opened, depth command ≤ depth header) :
    read depth isExit opened (command :: rest) = read depth isExit [] (command :: rest) := by
  have popped : opened.dropWhile (fun header => depth command ≤ depth header) = [] := by
    rw [dropWhile_eq_nil_iff]
    simpa using closed
  simp [read, notExit, popped]

theorem read_path (done below : List α) (line : α) (rest : List α)
    (nested : Nested depth (done ++ below ++ [line]))
    (notExit : ∀ command ∈ below ++ [line], isExit command = false) :
    read depth isExit done.reverse (below ++ line :: rest) =
      (((done ++ below).inits.drop done.length).zip below).map
          (fun entered => ⟨entered.2, entered.1, false⟩) ++
        ⟨line, done ++ below, closesBefore depth isExit (depth line) rest⟩ ::
          read depth isExit (line :: (done ++ below).reverse) rest := by
  -- The innermost open line is shallower than what follows, so nothing closes.
  have stays : ∀ (stack : List α) (command : α), Nested depth (stack ++ [command]) →
      stack.reverse.dropWhile (fun header => depth command ≤ depth header) = stack.reverse := by
    intro stack command nestedHere
    rw [dropWhile_eq_self_iff]
    intro nonempty
    have inStack : stack.reverse[0] ∈ stack := mem_reverse.mp (getElem_mem nonempty)
    have deeper := (pairwise_append.mp nestedHere).2.2 _ inStack command (by simp)
    simpa using deeper
  induction below generalizing done with
  | nil =>
    have here := notExit line (by simp)
    rw [append_nil] at nested
    simp [read, here, stays done line nested]
  | cons header below ih =>
    have here := notExit header (by simp)
    have nestedHere : Nested depth (done ++ [header]) := by
      refine List.Pairwise.sublist ?_ nested
      simp
    have deeper : depth header < depth ((below ++ [line]).head (by simp)) := by
      have tail : Nested depth (header :: (below ++ [line])) := by
        refine List.Pairwise.sublist ?_ nested
        simp
      exact rel_of_pairwise_cons tail (head_mem _)
    have isAncestor : closesBefore depth isExit (depth header) (below ++ line :: rest) = false := by
      cases below with
      | nil => simpa [closesBefore, notExit line (by simp)] using deeper
      | cons next below => simpa [closesBefore, notExit next (by simp)] using deeper
    have split : (done ++ header :: below) = (done ++ [header]) ++ below := by simp
    have dropped : (done ++ header :: below).inits.drop done.length =
        done :: (done ++ header :: below).inits.drop (done ++ [header]).length := by
      have inBounds : done.length < (done ++ header :: below).inits.length := by
        rw [length_inits, length_append, length_cons]
        omega
      rw [drop_eq_getElem_cons inBounds]
      simp [getElem_inits]
    have later := ih (done ++ [header]) (by simpa using nested)
      (fun command inside => notExit command (.tail _ inside))
    rw [dropped, cons_append, read, here, if_neg (by simp)]
    simp only [stays done header nestedHere, isAncestor, reverse_reverse]
    rw [show header :: done.reverse = (done ++ [header]).reverse by simp, later, split]
    simp

/-- What the reader still has open, when the sender believes level `current` to
be open: a line of that level sits under it, and once it is left nothing is open
that another line could sit under. -/
structure Follows (depth : α → Nat) (lines : List (List α × α)) (current opened : List α) : Prop where
  stays : ∀ pair ∈ lines, pair.1 = current →
    opened.dropWhile (fun header => depth pair.2 ≤ depth header) = current.reverse
  closed : ∀ header ∈ opened.drop current.length, ∀ pair ∈ lines, ∀ first below,
    pair.1 ++ [pair.2] = first :: below → depth first ≤ depth header

private theorem follows_start : Follows depth lines [] [] :=
  ⟨fun _ _ _ => rfl, fun _ inside => by simp at inside⟩

private theorem follows_line (evenly : Evenly depth isExit lines) {level : List α} {line : α}
    (member : (level, line) ∈ lines) : Follows depth lines level (line :: level.reverse) := by
  constructor
  · rintro ⟨other, sibling⟩ isOther rfl
    have same : depth sibling = depth line :=
      evenly.even _ isOther _ member other sibling line (prefix_refl _) (prefix_refl _)
    have deeper := (pairwise_append.mp (evenly.nested _ isOther)).2.2
    rw [dropWhile_cons, if_pos (by simp [same]), dropWhile_eq_self_iff]
    intro nonempty
    have inLevel := mem_reverse.mp (getElem_mem nonempty)
    simpa using deeper _ inLevel sibling (by simp)
  · intro header inside pair isPair first below isPath
    have whole : line :: level.reverse = (level ++ [line]).reverse := by simp
    rw [whole, drop_reverse, mem_reverse] at inside
    obtain ⟨top, rest, isTop⟩ := exists_cons_of_ne_nil (l := level ++ [line]) (by simp)
    have isHeader : header = top := by
      have width : (level ++ [line]).length - level.length = 1 := by simp
      rw [width, isTop] at inside
      simpa using inside
    refine le_of_eq (evenly.even _ isPair _ member [] first header ?_ ?_)
    · rw [isPath]
      exact ⟨below, rfl⟩
    · rw [isTop, isHeader]
      exact ⟨rest, rfl⟩

private theorem closesBefore_emitFrom [DecidableEq α] (exits : isExit exit)
    (evenly : Evenly depth isExit lines) {level : List α} {line : α}
    (member : (level, line) ∈ lines) {rest : List (List α × α)} (later : rest ⊆ lines) :
    closesBefore depth isExit (depth line) (emitFrom (fun _ => false) exit level rest) = true := by
  have onLeave : ∀ above : List α, above ≠ [] → ∀ program,
      closesBefore depth isExit (depth line) (leave exit above ++ program) = true := by
    intro above nonempty program
    obtain ⟨header, below, rfl⟩ := exists_cons_of_ne_nil nonempty
    have split : leave exit (header :: below) = exit :: leave exit below := rfl
    simp [split, closesBefore, exits]
  cases rest with
  | nil =>
    rw [emitFrom]
    cases level with
    | nil => rfl
    | cons header below => simpa using onLeave (header :: below) (by simp) []
  | cons next rest =>
    obtain ⟨other, sibling⟩ := next
    have isNext : (other, sibling) ∈ lines := later (.head _)
    rw [emitFrom, moveTo]
    by_cases same : other = level
    · subst same
      have even := evenly.even _ isNext _ member other sibling line (prefix_refl _)
        (prefix_refl _)
      simp [closesBefore, even]
    · rw [if_neg same, append_assoc]
      cases level with
      | cons header below => exact onLeave _ (by simp) _
      | nil =>
        obtain ⟨first, below, isPath⟩ :=
          exists_cons_of_ne_nil (l := other ++ [sibling]) (by simp)
        have even : depth first = depth line := by
          refine evenly.even _ isNext _ member [] first line ?_ (prefix_refl _)
          rw [isPath]
          exact ⟨below, rfl⟩
        have starts : ∀ program, leave exit [] ++ (other ++ sibling :: program) =
            first :: (below ++ program) := by
          intro program
          have joined : other ++ sibling :: program = (other ++ [sibling]) ++ program := by simp
          rw [joined, isPath]
          rfl
        rw [starts]
        simp [closesBefore, even]

private theorem read_emitFrom [DecidableEq α] (exits : isExit exit)
    (evenly : Evenly depth isExit lines) {rest : List (List α × α)} (later : rest ⊆ lines)
    {current opened : List α} (follows : Follows depth lines current opened) :
    read depth isExit opened (emitFrom (fun _ => false) exit current rest) =
      placedFrom current rest := by
  induction rest generalizing current opened with
  | nil =>
    have left : read depth isExit opened (leave exit current ++ []) =
        read depth isExit (opened.drop current.length) [] := read_leave exits opened current []
    rw [append_nil] at left
    rw [emitFrom, left, read, placedFrom]
  | cons pair rest ih =>
    obtain ⟨level, line⟩ := pair
    have member : (level, line) ∈ lines := later (.head _)
    have laterRest : rest ⊆ lines := fun other inside => later (.tail _ inside)
    have notExit := evenly.notExit _ member
    have next := ih laterRest (follows_line evenly member)
    have closes := closesBefore_emitFrom exits evenly member laterRest
    have step : emitFrom (fun _ => false) exit current ((level, line) :: rest) =
        moveTo exit current level ++ line :: emitFrom (fun _ => false) exit level rest := rfl
    rw [step, moveTo, placedFrom]
    by_cases same : level = current
    · rw [if_pos same, if_pos same, nil_append, nil_append, read,
        if_neg (by simp [notExit line])]
      simp only [follows.stays _ member same, ← same, reverse_reverse, closes, next]
    · rw [if_neg same, if_neg same, append_assoc, read_leave exits]
      obtain ⟨first, below, isPath⟩ := exists_cons_of_ne_nil (l := level ++ [line]) (by simp)
      have starts : ∀ program, level ++ line :: program = first :: (below ++ program) := by
        intro program
        have joined : level ++ line :: program = (level ++ [line]) ++ program := by simp
        rw [joined, isPath, cons_append]
      have fromTop := read_path [] level line (emitFrom (fun _ => false) exit level rest)
        (evenly.nested _ member) notExit
      rw [reverse_nil, starts] at fromTop
      rw [starts, read_closed (notExit first (by simp [isPath]))
        (fun header inside => follows.closed header inside _ member first below isPath), fromTop]
      simp [closes, next, entering]

/-- **An emitted program reads back** as its lines, each under the level it was
emitted for, and the headers that were entered. -/
theorem read_emit [DecidableEq α] (exits : isExit exit) (evenly : Evenly depth isExit lines) :
    read depth isExit [] (emit (fun _ => false) exit lines) = placedFrom [] lines :=
  read_emitFrom exits evenly (.refl _) follows_start

theorem mem_placedFrom_of_mem [DecidableEq α] {pair : List α × α} (current : List α)
    (member : pair ∈ lines) : ⟨pair.2, pair.1, true⟩ ∈ placedFrom current lines := by
  induction lines generalizing current with
  | nil => cases member
  | cons head rest ih =>
    rw [placedFrom, mem_append, mem_cons]
    rcases mem_cons.mp member with rfl | later
    · exact .inr (.inl rfl)
    · exact .inr (.inr (ih head.1 later))

theorem mem_of_mem_placedFrom [DecidableEq α] {current : List α} {reading : Reading α}
    (member : reading ∈ placedFrom current lines) :
    (reading.isLast ∧ (reading.level, reading.line) ∈ lines) ∨
      (reading.isLast = false ∧ ∃ pair ∈ lines, reading.level ++ [reading.line] <+: pair.1) := by
  induction lines generalizing current with
  | nil => cases member
  | cons head rest ih =>
    obtain ⟨level, line⟩ := head
    rw [placedFrom, mem_append, mem_cons] at member
    rcases member with entered | rfl | later
    · split_ifs at entered
      · cases entered
      · obtain ⟨⟨above, header⟩, isEntered, rfl⟩ := mem_map.mp entered
        exact .inr ⟨rfl, _, .head _, prefix_of_mem_entering isEntered⟩
    · exact .inl ⟨rfl, .head _⟩
    · refine (ih later).imp (And.imp_right (mem_cons_of_mem _)) ?_
      rintro ⟨notLast, pair, inRest, isPrefix⟩
      exact ⟨notLast, pair, .tail _ inRest, isPrefix⟩

end Reading

end Nmas.Outline
