import Nmas.Outline.Settings
import Nmas.Nsot.Rollback.Build

/-!
Owns: what regrouped terminal lines are left with. A device holds its terminal
lines one by one, a command under a `line` header reaches each line of the
range, and `lineRangeUndo` puts back what each of them had.
-/

namespace Nmas.Nsot.Rollback

open Nmas.Text List
open Nmas.Outline

section Lines

variable [Unicode]

/-- The settings of each terminal line, by its kind and its number. -/
abbrev TerminalLines := Str → Nat → Finset Str

def reaches (chain : List Str) (kind : Str) (number : Nat) : Bool :=
  match chain with
  | [header] => (lineRange header).any (fun range =>
    range.kind == kind && range.first ≤ number && number ≤ range.last)
  | _ => false

omit [Unicode] in
/-- What a command does to a terminal line it reaches: `no S` clears `S`. -/
def effectOf (command : Str) : Effect Str :=
  if IsNoForm command then .clear (strip ((strip command).drop 2)) else .give (strip command)

variable {κ : Type} [DecidableEq κ] (key : Str → κ)

/-- A command with its section, as the device takes it. -/
def send (lines : TerminalLines) (sent : List Str × Str) : TerminalLines := fun kind number =>
  if reaches sent.1 kind number then (effectOf sent.2).on key (lines kind number)
  else lines kind number

def sendAll (lines : TerminalLines) (program : List (List Str × Str)) : TerminalLines :=
  program.foldl (send key) lines

def under (header : Str) (children : List Str) : List (List Str × Str) :=
  children.map (fun child => ([header], child))

def stanzaLines (stanzas : List LineStanza) : List (List Str × Str) :=
  stanzas.flatMap (fun stanza => under stanza.header stanza.children)

/-- The settings a configuration's stanzas give each terminal line. -/
def heldSettings (pre : Str) : TerminalLines :=
  sendAll key (fun _ _ => ∅) (stanzaLines (preLineStanzas pre))

def effectsAt (kind : Str) (number : Nat) (program : List (List Str × Str)) : List (Effect Str) :=
  (program.filter (fun sent => reaches sent.1 kind number)).map (fun sent => effectOf sent.2)

def ownEffects (pre kind : Str) (number : Nat) : List (Effect Str) :=
  effectsAt kind number (stanzaLines (preLineStanzas pre))

end Lines

section Reach

variable [Unicode] {κ : Type} [DecidableEq κ] {key : Str → κ} {lines : TerminalLines}
  {kind : Str} {number : Nat} {program more : List (List Str × Str)} {header pre : Str}
  {children : List Str}

theorem sendAll_apply :
    sendAll key lines program kind number =
      settle key (lines kind number) (effectsAt kind number program) := by
  induction program generalizing lines with
  | nil => rfl
  | cons sent rest ih =>
    have unfolded : sendAll key lines (sent :: rest) = sendAll key (send key lines sent) rest := rfl
    rw [unfolded, ih]
    by_cases isReached : reaches sent.1 kind number = true
    · have isSent : send key lines sent kind number =
          (effectOf sent.2).on key (lines kind number) := if_pos isReached
      have isFirst : effectsAt kind number (sent :: rest) =
          effectOf sent.2 :: effectsAt kind number rest := by
        unfold effectsAt
        simp [isReached]
      rw [isSent, isFirst]
      rfl
    · have isSent : send key lines sent kind number = lines kind number := if_neg isReached
      have isPassed : effectsAt kind number (sent :: rest) = effectsAt kind number rest := by
        unfold effectsAt
        simp [isReached]
      rw [isSent, isPassed]

theorem effectsAt_append :
    effectsAt kind number (program ++ more) =
      effectsAt kind number program ++ effectsAt kind number more := by
  unfold effectsAt
  rw [filter_append, map_append]

theorem effectsAt_under :
    effectsAt kind number (under header children) =
      if reaches [header] kind number then children.map effectOf else [] := by
  have areReached : children.filter ((fun sent => reaches sent.1 kind number) ∘
      fun child => ([header], child)) = if reaches [header] kind number then children else [] := by
    split_ifs with isReached
    · exact filter_eq_self.mpr fun child _ => isReached
    · exact filter_eq_nil_iff.mpr fun child _ => isReached
  unfold effectsAt under
  rw [filter_map, map_map, areReached]
  split_ifs
  · rfl
  · rfl

theorem mem_effectsAt_stanzaLines {stanzas : List LineStanza} {effect : Effect Str} :
    effect ∈ effectsAt kind number (stanzaLines stanzas) ↔
      ∃ stanza ∈ stanzas, reaches [stanza.header] kind number ∧
        ∃ child ∈ stanza.children, effectOf child = effect := by
  unfold effectsAt stanzaLines under
  simp only [mem_map, mem_filter, mem_flatMap]
  constructor
  · rintro ⟨sent, ⟨⟨stanza, isStanza, child, isChild, rfl⟩, isReached⟩, same⟩
    exact ⟨stanza, isStanza, isReached, child, isChild, same⟩
  · rintro ⟨stanza, isStanza, isReached, child, isChild, same⟩
    exact ⟨([stanza.header], child), ⟨⟨stanza, isStanza, child, isChild, rfl⟩, isReached⟩, same⟩

theorem reaches_of_parsed {range : LineRange} (parsed : lineRange header = some range) :
    reaches [header] kind number =
      (range.kind == kind && range.first ≤ number && number ≤ range.last) := by
  show (lineRange header).any _ = _
  rw [parsed]
  rfl

theorem reaches_stanza {stanza : LineStanza} (member : stanza ∈ preLineStanzas pre) :
    reaches [stanza.header] kind number = stanza.has kind number := by
  exact reaches_of_parsed (isStanza_of_mem member).parsed

theorem reaches_iff {range : LineRange} (parsed : lineRange header = some range) :
    reaches [header] kind number ↔ range.kind = kind ∧ number ∈ range.numbers := by
  unfold LineRange.numbers
  rw [reaches_of_parsed parsed, mem_range'_1]
  simp only [Bool.and_eq_true, beq_iff_eq, decide_eq_true_eq]
  constructor
  · rintro ⟨⟨isKind, isFrom⟩, isTo⟩
    exact ⟨isKind, isFrom, by omega⟩
  · rintro ⟨isKind, isFrom, isTo⟩
    exact ⟨⟨isKind, isFrom⟩, by omega⟩

omit [Unicode] in
theorem effectOf_congr {one other : Str} (same : strip one = strip other) :
    effectOf one = effectOf other := by
  have sameWords : words one = words other := by
    rw [← words_strip, same, words_strip]
  have sameForm : IsNoForm one ↔ IsNoForm other := by
    unfold IsNoForm
    rw [sameWords]
  unfold effectOf
  rw [same]
  exact if_congr sameForm rfl rfl

omit [Unicode] in
theorem effectOf_negated (line : Str) : effectOf (negated line) = .clear (strip line) := by
  have isRest : strip ((strip (negated line)).drop 2) = strip line := by
    have isLine : strip (negated line) = rstrip ("no ".ascii ++ strip line) := by
      unfold negated
      rw [strip_indent fun c inside => isSpace_of_mem_spaces inside]
      rfl
    rw [isLine]
    cases isBlank : strip line with
    | nil => decide
    | cons c rest =>
      have trimmed : rstrip (c :: rest) = c :: rest := by
        rw [← isBlank]
        exact rstrip_rstrip
      rw [rstrip_append (cons_ne_nil _ _) trimmed, ← isBlank]
      show strip ([' '] ++ strip line) = strip line
      rw [strip_indent (by decide), strip_strip]
  unfold effectOf
  rw [if_pos (isNoForm_negated line), isRest]

omit [Unicode] in
theorem strip_of_effectOf {line setting : Str} (gives : effectOf line = .give setting) :
    strip line = setting := by
  unfold effectOf at gives
  split at gives
  · cases gives
  · cases gives
    rfl

theorem mem_ownEffects_of_carried {range : LineRange} {child : Str}
    (parsed : lineRange header = some range) (inside : reaches [header] kind number)
    (carried : carriedByAll range pre child) : effectOf child ∈ ownEffects pre kind number := by
  obtain ⟨rfl, inRange⟩ := (reaches_iff parsed).mp inside
  obtain ⟨stanza, isStanza, holds⟩ := any_eq_true.mp (all_eq_true.mp carried number inRange)
  obtain ⟨hasLine, isText⟩ := Bool.and_eq_true _ _ ▸ holds
  obtain ⟨other, isOther, same⟩ := mem_map.mp (contains_iff_mem.mp isText)
  refine mem_effectsAt_stanzaLines.mpr ⟨stanza, isStanza, ?_, other, isOther, effectOf_congr same⟩
  rw [reaches_stanza isStanza]
  exact hasLine

theorem overlapping_subset :
    effectsAt kind number (stanzaLines (overlappingStanzas header pre)) ⊆
      ownEffects pre kind number := by
  intro effect member
  obtain ⟨stanza, overlaps, isReached, said⟩ := mem_effectsAt_stanzaLines.mp member
  exact mem_effectsAt_stanzaLines.mpr
    ⟨stanza, mem_of_mem_overlappingStanzas overlaps, isReached, said⟩

theorem ownEffects_subset {range : LineRange} (parsed : lineRange header = some range)
    (inside : reaches [header] kind number) :
    ownEffects pre kind number ⊆
      effectsAt kind number (stanzaLines (overlappingStanzas header pre)) := by
  intro effect member
  obtain ⟨stanza, isStanza, isReached, said⟩ := mem_effectsAt_stanzaLines.mp member
  refine mem_effectsAt_stanzaLines.mpr ⟨stanza, ?_, isReached, said⟩
  obtain ⟨sameKind, inRange⟩ := (reaches_iff parsed).mp inside
  obtain ⟨ownKind, ownRange⟩ := (reaches_iff (isStanza_of_mem isStanza).parsed).mp isReached
  unfold LineRange.numbers at inRange ownRange
  rw [mem_range'_1] at inRange ownRange
  unfold overlappingStanzas
  rw [parsed]
  apply mem_filter.mpr
  refine ⟨isStanza, ?_⟩
  simp only [Bool.and_eq_true, beq_iff_eq, decide_eq_true_eq]
  refine ⟨⟨ownKind.trans sameKind.symm, ?_⟩, ?_⟩
  · omega
  · omega

end Reach

section Restores

variable [Unicode] {κ : Type} [DecidableEq κ] {key : Str → κ} {kind : Str} {number : Nat}
  {header pre : Str} {children : List Str}

theorem heldSettings_eq (agrees : Agrees key (ownEffects pre kind number)) :
    heldSettings key pre kind number = given (ownEffects pre kind number) := by
  unfold heldSettings
  rw [sendAll_apply]
  exact (settle_of_agrees agrees (Finset.empty_subset _) (.refl _)).trans (Finset.empty_union _)

def negatedOf (range : LineRange) (pre : Str) (children : List Str) : List Str :=
  children.filter (fun child => !carriedByAll range pre child)

theorem lineRangeUndo_eq {range : LineRange} (parsed : lineRange header = some range) :
    lineRangeUndo header children pre =
      if negatedOf range pre children = [] then []
      else under header ((negatedOf range pre children).map negated) ++
        stanzaLines (overlappingStanzas header pre) := by
  unfold lineRangeUndo
  rw [parsed]
  unfold under
  rw [map_map]
  rfl

theorem kept_subset {range : LineRange} (parsed : lineRange header = some range)
    (inside : reaches [header] kind number) :
    settle key (settle key (given (ownEffects pre kind number)) (children.map effectOf))
        (((negatedOf range pre children).map negated).map effectOf) ⊆
      given (ownEffects pre kind number) := by
  have areCleared : ((negatedOf range pre children).map negated).map effectOf =
      ((negatedOf range pre children).map strip).map Effect.clear := by
    rw [map_map, map_map]
    exact map_congr_left fun child _ => effectOf_negated child
  rw [areCleared, settle_clear]
  intro setting member
  obtain ⟨isHeld, notCleared⟩ := Finset.mem_sdiff.mp member
  rcases Finset.mem_union.mp (settle_subset isHeld) with before | isGiven
  · exact before
  · obtain ⟨child, isChild, gives⟩ := mem_map.mp (mem_given.mp isGiven)
    have carried : carriedByAll range pre child := by
      by_contra notCarried
      apply notCleared
      rw [mem_toFinset, mem_map]
      refine ⟨child, mem_filter.mpr ⟨isChild, ?_⟩, strip_of_effectOf gives⟩
      rw [Bool.not_eq_true']
      exact Bool.eq_false_iff.mpr notCarried
    rw [mem_given, ← gives]
    exact mem_ownEffects_of_carried parsed inside carried

private theorem restores_inside {range : LineRange} (parsed : lineRange header = some range)
    (inside : reaches [header] kind number) (agrees : Agrees key (ownEffects pre kind number)) :
    settle key (settle key (given (ownEffects pre kind number)) (children.map effectOf))
        (effectsAt kind number (lineRangeUndo header children pre)) =
      given (ownEffects pre kind number) := by
  rw [lineRangeUndo_eq parsed]
  split_ifs with nothing
  · -- Every pushed setting was on every line, so the push changed nothing.
    have isOwn : children.map effectOf ⊆ ownEffects pre kind number := by
      intro effect member
      obtain ⟨child, isChild, rfl⟩ := mem_map.mp member
      have carried : carriedByAll range pre child := by
        simpa using filter_eq_nil_iff.mp nothing child isChild
      exact mem_ownEffects_of_carried parsed inside carried
    have isGiven : given (children.map effectOf) ⊆ given (ownEffects pre kind number) := by
      intro setting member
      exact mem_given.mpr (isOwn (mem_given.mp member))
    calc settle key (settle key (given (ownEffects pre kind number)) (children.map effectOf)) []
        = settle key (given (ownEffects pre kind number)) (children.map effectOf) := rfl
      _ = given (ownEffects pre kind number) ∪ given (children.map effectOf) :=
        settle_of_agrees agrees (Finset.Subset.refl _) isOwn
      _ = given (ownEffects pre kind number) := Finset.union_eq_left.mpr isGiven
  · have sameGiven : given (ownEffects pre kind number) ⊆
        given (effectsAt kind number (stanzaLines (overlappingStanzas header pre))) := by
      intro setting member
      exact mem_given.mpr (ownEffects_subset parsed inside (mem_given.mp member))
    have notMore : given (effectsAt kind number (stanzaLines (overlappingStanzas header pre))) ⊆
        given (ownEffects pre kind number) := by
      intro setting member
      exact mem_given.mpr (overlapping_subset (mem_given.mp member))
    rw [effectsAt_append, effectsAt_under, if_pos inside, settle_append,
      settle_of_agrees agrees (kept_subset parsed inside) overlapping_subset,
      Finset.Subset.antisymm notMore sameGiven]
    exact Finset.union_eq_right.mpr (kept_subset parsed inside)

private theorem restores_outside (outside : reaches [header] kind number ≠ true)
    (agrees : Agrees key (ownEffects pre kind number)) :
    settle key (given (ownEffects pre kind number))
        (effectsAt kind number (lineRangeUndo header children pre)) =
      given (ownEffects pre kind number) := by
  cases parsed : lineRange header with
  | none =>
    unfold lineRangeUndo
    rw [parsed]
    rfl
  | some range =>
    have isOwn : effectsAt kind number (lineRangeUndo header children pre) ⊆
        ownEffects pre kind number := by
      rw [lineRangeUndo_eq parsed]
      split_ifs
      · exact nil_subset _
      · rw [effectsAt_append, effectsAt_under, if_neg outside, nil_append]
        exact overlapping_subset
    have isGiven : given (effectsAt kind number (lineRangeUndo header children pre)) ⊆
        given (ownEffects pre kind number) := by
      intro setting member
      exact mem_given.mpr (isOwn (mem_given.mp member))
    rw [settle_of_agrees agrees (Finset.Subset.refl _) isOwn]
    exact Finset.union_eq_left.mpr isGiven

/-- **A push under a `line` header and its undo leave each terminal line whose stanzas agree with
exactly what it had**, in the range or not. -/
theorem lineRangeUndo_restores (key : Str → κ) (header pre : Str) (children : List Str)
    (agrees : Agrees key (ownEffects pre kind number)) :
    sendAll key (heldSettings key pre) (under header children ++ lineRangeUndo header children pre)
        kind number =
      heldSettings key pre kind number := by
  rw [sendAll_apply, effectsAt_append, settle_append, effectsAt_under, heldSettings_eq agrees]
  split_ifs with inside
  · cases parsed : lineRange header with
    | none =>
      have unread : (lineRange header).any (fun range =>
        range.kind == kind && range.first ≤ number && number ≤ range.last) = true := inside
      rw [parsed] at unread
      cases unread
    | some range => exact restores_inside parsed inside agrees
  · exact restores_outside inside agrees

end Restores

/-- The precise key of a setting under a `line` header. -/
def lineKey (setting : Str) : Str := (commandKeys ⟨setting, []⟩).1

theorem sessionTimeout_restored :
    letI : Unicode := basicLatin
    sendAll lineKey (heldSettings lineKey "line vty 0 4\n session-timeout 5".ascii)
        (under "line vty 0 1".ascii [" session-timeout 10".ascii] ++
          lineRangeUndo "line vty 0 1".ascii [" session-timeout 10".ascii]
            "line vty 0 4\n session-timeout 5".ascii) "vty".ascii 3 =
      heldSettings lineKey "line vty 0 4\n session-timeout 5".ascii "vty".ascii 3 :=
  letI : Unicode := basicLatin
  lineRangeUndo_restores lineKey "line vty 0 1".ascii "line vty 0 4\n session-timeout 5".ascii
    [" session-timeout 10".ascii] ⟨by decide +kernel, by decide +kernel⟩

/-- A line given two values of a setting: the first one is taken for held, and stays. -/
theorem repeated_line_differs :
    letI : Unicode := basicLatin
    lineRangeHeld "line vty 0".ascii
        "line vty 0\n session-timeout 5\nline vty 0\n session-timeout 10".ascii = true ∧
      sendAll lineKey
          (heldSettings lineKey
            "line vty 0\n session-timeout 5\nline vty 0\n session-timeout 10".ascii)
          (under "line vty 0".ascii [" session-timeout 5".ascii] ++
            lineRangeUndo "line vty 0".ascii [" session-timeout 5".ascii]
              "line vty 0\n session-timeout 5\nline vty 0\n session-timeout 10".ascii)
          "vty".ascii 0 ≠
        heldSettings lineKey
          "line vty 0\n session-timeout 5\nline vty 0\n session-timeout 10".ascii "vty".ascii 0 := by
  decide +kernel

end Nmas.Nsot.Rollback
