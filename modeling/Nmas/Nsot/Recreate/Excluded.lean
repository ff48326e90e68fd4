import Nmas.Nsot.Recreate.Plan

/-!
Contract: what `exclude` leaves of a configuration.

Owns: when the two scans agree. `operations` reads on over a blank line and stops
at a `!`, however indented; `exclude` skips to the next line that does not start
with a space, blank or not. Where an indented line is after one of these, or under
a schedule that was left out, they can read it differently.
-/

namespace Nmas.Nsot.Recreate

open Nmas.Text Nmas.Log List

/-- What a line is to both scans. -/
inductive Kind where
  | blank
  /-- White space that starts otherwise than with a space. -/
  | gap
  /-- An indented `!`. -/
  | separator
  | inner
  | header (number : Str)
  | schedule (number : Str)
  | other
deriving DecidableEq

section Scans

variable [Unicode] {numbers : List Str} {skipping : Bool} {scan read kept : Scan}
  {raw number : Str} {before after lines : List Str} {config : Str} {units : List Recreated}

def kindOf (raw : Str) : Kind :=
  if strip raw = [] then
    if raw = [] ∨ isInner raw then .blank else .gap
  else if isInner raw then
    if strip raw = "!".ascii then .separator else .inner
  else
    match header (rstrip raw) with
    | some number => .header number
    | none =>
      match scheduled (rstrip raw) with
      | some number => .schedule number
      | none => .other

omit [Unicode] in
theorem isInner_rstrip (visible : strip raw ≠ []) : isInner (rstrip raw) = isInner raw := by
  cases raw with
  | nil => rfl
  | cons c rest =>
    have isPrefix : rstrip (c :: rest) <+: c :: rest := rdropWhile_prefix isSpace _
    cases isTrimmed : rstrip (c :: rest) with
    | nil =>
      rw [← strip_rstrip, isTrimmed] at visible
      exact absurd rfl visible
    | cons d trimmed =>
      rw [isTrimmed] at isPrefix
      rw [(cons_prefix_cons.mp isPrefix).1]
      rfl

omit [Unicode] in
theorem rstrip_of_blank (blank : strip raw = []) : rstrip raw = [] := by
  unfold rstrip
  rw [rdropWhile_eq_nil_iff]
  exact strip_eq_nil_iff.mp blank

omit [Unicode] in
theorem initial_of_afterPrefix {lead text rest : Str} {c : Char}
    (follows : afterPrefix (c :: lead) text = some rest) : c ∈ text := by
  unfold afterPrefix at follows
  split at follows
  · rename_i isPrefix
    exact (List.isPrefixOf_iff_prefix.mp isPrefix).mem (.head _)
  · cases follows

theorem header_of_separator (separates : strip raw = "!".ascii) :
    header (rstrip raw) = none ∧ scheduled (rstrip raw) = none := by
  have noInitial : 'i' ∉ rstrip raw := by
    intro inside
    rcases mem_strip_or_space inside with kept | space
    · rw [strip_rstrip, separates] at kept
      exact absurd kept (by decide)
    · exact absurd space (by decide)
  have apart {lead : Str} : afterPrefix ('i' :: lead) (rstrip raw) = none := by
    cases isRest : afterPrefix ('i' :: lead) (rstrip raw) with
    | none => rfl
    | some rest => exact absurd (initial_of_afterPrefix isRest) noInitial
  constructor
  · have notHeader : afterPrefix "ip sla ".ascii (rstrip raw) = none := apart
    rw [header, notHeader]
    rfl
  · have notSchedule : afterPrefix "ip sla schedule ".ascii (rstrip raw) = none := apart
    rw [scheduled, notSchedule]
    rfl

omit [Unicode] in
theorem eq_of_afterPrefix {lead text rest : Str} (follows : afterPrefix lead text = some rest) :
    lead ++ rest = text := by
  unfold afterPrefix at follows
  split at follows
  · rename_i isPrefix
    obtain ⟨tail, isTail⟩ := isPrefixOf_iff_prefix.mp isPrefix
    cases follows
    rw [← isTail, drop_left]
  · cases follows

theorem scheduled_of_header {line : Str} (isHeader : header line = some number) :
    scheduled line = none := by
  unfold scheduled
  cases follows : afterPrefix "ip sla schedule ".ascii line with
  | none => rfl
  | some rest =>
    rw [← eq_of_afterPrefix follows] at isHeader
    have notDecimal : isDecimal 's' = false := isDecimal_ascii 's' (by decide)
    have noHeader : header ("ip sla schedule ".ascii ++ rest) = none := by
      have left : afterPrefix "ip sla ".ascii ("ip sla schedule ".ascii ++ rest) =
          some ("schedule ".ascii ++ rest) := rfl
      rw [header, left, Option.bind_some, if_neg]
      rintro ⟨-, digits⟩
      have first : isDecimal 's' := all_eq_true.mp digits 's' (.head _)
      rw [notDecimal] at first
      cases first
    rw [noHeader] at isHeader
    cases isHeader

theorem readLine_eq : readLine scan raw =
    match kindOf raw with
    | .blank | .gap => scan
    | .separator | .other => { scan with current := none }
    | .inner =>
      match scan.current with
      | some number => { scan with ops := scan.ops.change number (·.addBody (rstrip raw)) }
      | none => scan
    | .header number => ⟨scan.ops.setDefault number, some number⟩
    | .schedule number =>
      ⟨(scan.ops.setDefault number).change number (·.addSchedule (rstrip raw)), none⟩ := by
  unfold readLine kindOf
  dsimp only
  rw [strip_rstrip]
  by_cases blank : strip raw = []
  · have notSeparator : ¬ ([] : Str) = "!".ascii := by decide
    rw [if_pos (.inl blank), if_pos blank, blank, if_neg notSeparator]
    by_cases isBlank : raw = [] ∨ isInner raw = true
    · rw [if_pos isBlank]
    · rw [if_neg isBlank]
  · rw [if_neg blank, isInner_rstrip blank]
    by_cases separates : strip raw = "!".ascii
    · rw [if_pos (.inr separates), if_pos separates]
      by_cases isTop : isInner raw = true
      · rw [if_pos isTop, if_pos separates]
      · obtain ⟨noHeader, noSchedule⟩ := header_of_separator separates
        rw [if_neg isTop, noHeader, noSchedule]
    · rw [if_neg (by simp [blank, separates])]
      by_cases isTop : isInner raw = true
      · cases isCurrent : scan.current <;> simp [isTop, separates]
      · rw [if_neg isTop, if_neg isTop]
        cases header (rstrip raw) with
        | some number => rfl
        | none => cases scheduled (rstrip raw) <;> rfl

def skips (numbers : List Str) (skipping : Bool) : Kind → Bool
  | .blank | .separator | .inner => skipping
  | .header number => numbers.contains number
  | .gap | .schedule _ | .other => false

def keeps (numbers : List Str) (skipping : Bool) : Kind → Bool
  | .blank | .separator | .inner => !skipping
  | .header number | .schedule number => !numbers.contains number
  | .gap | .other => true

theorem excludeLines_cons : excludeLines numbers skipping (raw :: lines) =
    if keeps numbers skipping (kindOf raw) then
      raw :: excludeLines numbers (skips numbers skipping (kindOf raw)) lines
    else excludeLines numbers (skips numbers skipping (kindOf raw)) lines := by
  unfold kindOf
  rw [excludeLines]
  by_cases isTop : raw ≠ [] ∧ ¬ isInner raw
  · rw [if_pos isTop]
    dsimp only
    by_cases blank : strip raw = []
    · have notInner : ¬ (raw = [] ∨ isInner raw) := fun either => either.elim isTop.1 isTop.2
      rw [if_pos blank, if_neg notInner, rstrip_of_blank blank]
      rfl
    · rw [if_neg blank, if_neg isTop.2]
      cases isHeader : header (rstrip raw) with
      | some number =>
        simp [skips, keeps, scheduled_of_header isHeader]
      | none =>
        cases isSchedule : scheduled (rstrip raw) with
        | some number | none => simp [skips, keeps]
  · rw [if_neg isTop]
    have blankOrInner : raw = [] ∨ isInner raw := by
      by_cases isEmpty : raw = []
      · exact .inl isEmpty
      · exact .inr (by simpa [isEmpty] using isTop)
    have sameKind : skips numbers skipping (kindOf raw) = skipping ∧
        keeps numbers skipping (kindOf raw) = !skipping := by
      unfold kindOf
      by_cases blank : strip raw = []
      · rw [if_pos blank, if_pos blankOrInner]
        exact ⟨rfl, rfl⟩
      · have isInner' : isInner raw := by
          rcases blankOrInner with isEmpty | inner
          · rw [isEmpty] at blank
            exact absurd rfl blank
          · exact inner
        rw [if_neg blank, if_pos isInner']
        split <;> exact ⟨rfl, rfl⟩
    rw [← kindOf]
    rw [sameKind.1, sameKind.2]
    cases skipping <;> rfl

/-! ### Where a line stands -/

inductive Region where
  /-- Under no line of a named operation. -/
  | elsewhere
  /-- In the definition of a named operation. -/
  | definition
  /-- There, after a gap. -/
  | afterGap
  /-- There, after a separator. -/
  | afterSeparator
  /-- Under a named operation's schedule, or after both a separator and a gap. -/
  | orphaned
deriving DecidableEq

/-- `isOpen`: of the lines that are not a named operation's, the last at the top or
separating is the header of another. -/
structure Place where
  region : Region
  isOpen : Bool
deriving DecidableEq

def Place.next (numbers : List Str) (place : Place) : Kind → Place
  | .blank | .inner => place
  | .gap =>
    match place.region with
    | .definition => ⟨.afterGap, place.isOpen⟩
    | .afterSeparator => ⟨.orphaned, place.isOpen⟩
    | _ => place
  | .separator =>
    match place.region with
    | .definition | .afterSeparator => ⟨.afterSeparator, place.isOpen⟩
    | _ => ⟨.elsewhere, false⟩
  | .header number =>
    if number ∈ numbers then ⟨.definition, place.isOpen⟩ else ⟨.elsewhere, true⟩
  | .schedule number =>
    if number ∈ numbers then ⟨.orphaned, place.isOpen⟩ else ⟨.elsewhere, false⟩
  | .other => ⟨.elsewhere, false⟩

def Place.run (numbers : List Str) (place : Place) (lines : List Str) : Place :=
  lines.foldl (fun place raw => place.next numbers (kindOf raw)) place

def placeAfter (numbers : List Str) (before : List Str) : Place :=
  Place.run numbers ⟨.elsewhere, false⟩ before

/-- An indented line here is read alike by both scans. -/
def Place.Fits (place : Place) : Prop :=
  match place.region with
  | .elsewhere | .definition => True
  | .afterGap | .afterSeparator => False
  | .orphaned => place.isOpen = false

/-- Every indented line stands where both scans read it alike. -/
def Legible (numbers : List Str) (config : Str) : Prop :=
  ∀ before raw after, splitlines config = before ++ raw :: after → kindOf raw = .inner →
    (placeAfter numbers before).Fits

/-! ### The claim -/

/-- The operation whose entry `operations` reads the line into. -/
def owner (before : List Str) (raw : Str) : Option Str :=
  match kindOf raw with
  | .header number | .schedule number => some number
  | .inner => (readLines before).current
  | _ => none

/-- The line says something: it is neither blank nor a separator. -/
def Says (raw : Str) : Prop := strip raw ≠ [] ∧ strip raw ≠ "!".ascii

/-- `exclude` keeps the line at its place. -/
def Survives (numbers before : List Str) (raw : Str) : Prop :=
  excludeLines numbers false (before ++ [raw]) = excludeLines numbers false before ++ [raw]

/-- The named operations are gone, no other operation is changed, and of the lines
that say something exactly those of the named operations are left out. -/
def RemovesExactly (config : Str) (units : List Recreated) : Prop :=
  (∀ number, (operations (exclude config units)).get number =
    if number ∈ units.map Recreated.number then none else (operations config).get number) ∧
  ∀ before raw after, splitlines config = before ++ raw :: after → Says raw →
    (Survives (units.map Recreated.number) before raw ↔
      ∀ number ∈ owner before raw, number ∉ units.map Recreated.number)

/-! ### Both scans, line by line -/

/-- Both scans at a line: what `operations` has read of the text, whether `exclude`
skips, and what `operations` would have read of the lines `exclude` kept. -/
structure Both where
  read : Scan
  skipping : Bool
  kept : Scan

def Both.step (numbers : List Str) (both : Both) (raw : Str) : Both where
  read := readLine both.read raw
  skipping := skips numbers both.skipping (kindOf raw)
  kept := if keeps numbers both.skipping (kindOf raw) then readLine both.kept raw else both.kept

def Both.run (numbers : List Str) (both : Both) (lines : List Str) : Both :=
  lines.foldl (Both.step numbers) both

def Both.start : Both := ⟨⟨[], none⟩, false, ⟨[], none⟩⟩

variable {both : Both} {place : Place}

theorem Both.run_cons : both.run numbers (raw :: lines) = (both.step numbers raw).run numbers lines :=
  rfl

theorem Both.run_append :
    both.run numbers (before ++ after) = (both.run numbers before).run numbers after :=
  foldl_append

theorem Both.run_read : (both.run numbers lines).read = lines.foldl readLine both.read := by
  induction lines generalizing both with
  | nil => rfl
  | cons raw lines ih => exact ih

theorem Both.run_kept : (both.run numbers lines).kept =
    (excludeLines numbers both.skipping lines).foldl readLine both.kept := by
  induction lines generalizing both with
  | nil => rfl
  | cons raw lines ih =>
    rw [run_cons, ih, excludeLines_cons, Both.step]
    dsimp only
    split <;> rfl

theorem excludeLines_append : excludeLines numbers both.skipping (before ++ after) =
    excludeLines numbers both.skipping before ++
      excludeLines numbers (both.run numbers before).skipping after := by
  induction before generalizing both with
  | nil => rfl
  | cons raw before ih =>
    have later := @ih (both.step numbers raw)
    have next : (both.step numbers raw).skipping = skips numbers both.skipping (kindOf raw) := rfl
    rw [next] at later
    rw [cons_append, excludeLines_cons, excludeLines_cons, Both.run_cons]
    split
    · rw [later, cons_append]
    · exact later

theorem survives_iff : Survives numbers before raw ↔
    keeps numbers (Both.start.run numbers before).skipping (kindOf raw) := by
  have isAppend : excludeLines numbers Both.start.skipping (before ++ [raw]) =
      excludeLines numbers Both.start.skipping before ++
        excludeLines numbers (Both.start.run numbers before).skipping [raw] := excludeLines_append
  have start : Both.start.skipping = false := rfl
  rw [start] at isAppend
  unfold Survives
  rw [isAppend, append_cancel_left_eq, excludeLines_cons]
  split
  · simp [excludeLines, *]
  · simp [excludeLines, *]

/-- The operation open after a line of this kind. -/
def turns (current : Option Str) : Kind → Option Str
  | .blank | .gap | .inner => current
  | .separator | .schedule _ | .other => none
  | .header number => some number

theorem current_readLine : (readLine scan raw).current = turns scan.current (kindOf raw) := by
  rw [readLine_eq]
  cases kindOf raw with
  | inner =>
    dsimp only
    split
    · rfl
    · rfl
  | blank | gap | separator | header number | schedule number | other => rfl

/-- What a place says there: whether `exclude` skips, and which operation is open to
`operations`, in the text and in the lines kept of it. -/
structure Tracks (numbers : List Str) (place : Place) (skipping : Bool)
    (read kept : Option Str) : Prop where
  isOpen : place.isOpen = kept.isSome
  others : ∀ number ∈ kept, number ∉ numbers
  region :
    match place.region with
    | .elsewhere => skipping = false ∧ read = kept
    | .definition => skipping = true ∧ ∃ number ∈ numbers, read = some number
    | .afterGap => skipping = false ∧ ∃ number ∈ numbers, read = some number
    | .afterSeparator => skipping = true ∧ read = none
    | .orphaned => skipping = false ∧ read = none

omit [Unicode] in
theorem Tracks.next {kind : Kind} {read kept : Option Str}
    (tracks : Tracks numbers place skipping read kept) :
    Tracks numbers (place.next numbers kind) (skips numbers skipping kind) (turns read kind)
      (if keeps numbers skipping kind then turns kept kind else kept) := by
  obtain ⟨isOpen, others, region⟩ := tracks
  obtain ⟨place, opened⟩ := place
  have nothing : ∀ number ∈ (none : Option Str), number ∉ numbers := by
    intro number isCurrent
    cases isCurrent
  cases kind with
  | blank =>
    have same : (if keeps numbers skipping .blank then turns kept .blank else kept) = kept :=
      ite_self kept
    rw [same]
    exact ⟨isOpen, others, region⟩
  | inner =>
    have same : (if keeps numbers skipping .inner then turns kept .inner else kept) = kept :=
      ite_self kept
    rw [same]
    exact ⟨isOpen, others, region⟩
  | gap =>
    have same : (if keeps numbers skipping .gap then turns kept .gap else kept) = kept :=
      ite_self kept
    rw [same]
    cases place with
    | elsewhere => exact ⟨isOpen, others, rfl, region.2⟩
    | definition => exact ⟨isOpen, others, rfl, region.2⟩
    | afterGap => exact ⟨isOpen, others, rfl, region.2⟩
    | afterSeparator => exact ⟨isOpen, others, rfl, region.2⟩
    | orphaned => exact ⟨isOpen, others, rfl, region.2⟩
  | separator =>
    cases place with
    | elsewhere | afterGap | orphaned =>
      rw [region.1]
      exact ⟨rfl, nothing, rfl, rfl⟩
    | definition | afterSeparator =>
      rw [region.1]
      exact ⟨isOpen, others, rfl, rfl⟩
  | header number =>
    by_cases isNamed : number ∈ numbers
    · have named : numbers.contains number := by simpa using isNamed
      simp only [Place.next, skips, keeps, turns, if_pos isNamed, named]
      exact ⟨isOpen, others, rfl, number, isNamed, rfl⟩
    · have notNamed : numbers.contains number = false := by simpa using isNamed
      simp only [Place.next, skips, keeps, turns, if_neg isNamed, notNamed]
      refine ⟨rfl, ?_, rfl, rfl⟩
      intro other isCurrent
      cases isCurrent
      exact isNamed
  | schedule number =>
    by_cases isNamed : number ∈ numbers
    · have named : numbers.contains number := by simpa using isNamed
      simp only [Place.next, skips, keeps, turns, if_pos isNamed, named]
      exact ⟨isOpen, others, rfl, rfl⟩
    · have notNamed : numbers.contains number = false := by simpa using isNamed
      simp only [Place.next, skips, keeps, turns, if_neg isNamed, notNamed]
      exact ⟨rfl, nothing, rfl, rfl⟩
  | other => exact ⟨rfl, nothing, rfl, rfl⟩

def Place.Follows (numbers : List Str) (place : Place) (both : Both) : Prop :=
  Tracks numbers place both.skipping both.read.current both.kept.current

omit [Unicode] in
theorem follows_start : Place.Follows numbers ⟨.elsewhere, false⟩ Both.start where
  isOpen := rfl
  others := by
    intro number isCurrent
    cases isCurrent
  region := ⟨rfl, rfl⟩

theorem Place.Follows.step (follows : place.Follows numbers both) :
    (place.next numbers (kindOf raw)).Follows numbers (both.step numbers raw) := by
  have kept : (both.step numbers raw).kept.current =
      if keeps numbers both.skipping (kindOf raw) then turns both.kept.current (kindOf raw)
      else both.kept.current := by
    rw [← current_readLine]
    unfold Both.step
    dsimp only
    split <;> rfl
  have read : (both.step numbers raw).read.current = turns both.read.current (kindOf raw) :=
    current_readLine
  unfold Place.Follows
  rw [kept, read]
  exact follows.next

theorem Place.Follows.run (follows : place.Follows numbers both) :
    (place.run numbers lines).Follows numbers (both.run numbers lines) := by
  induction lines generalizing place both with
  | nil => exact follows
  | cons raw lines ih => exact ih follows.step

theorem follows_run (before : List Str) :
    (placeAfter numbers before).Follows numbers (Both.start.run numbers before) :=
  follows_start.run

/-! ### The entries read -/

section Entries

variable {ops : Operations} {other : Str} {change : Operation → Operation}

omit [Unicode] in
theorem get_setDefault : (ops.setDefault number).get other =
    if other = number then some ((ops.get number).getD ⟨[], []⟩) else ops.get other := by
  unfold Operations.setDefault
  split
  · rename_i held
    obtain ⟨operation, isHeld⟩ := Option.isSome_iff_exists.mp held
    split
    · rename_i same
      rw [same, isHeld]
      rfl
    · rfl
  · rename_i new
    have notHeld : ops.get number = none := by simpa using new
    have notFound : ops.find? (fun entry => entry.1 = number) = none := by
      simpa [Operations.get] using notHeld
    rw [notHeld]
    unfold Operations.get
    rw [List.find?_append]
    split
    · rename_i same
      rw [same, notFound]
      simp
    · rename_i isOther
      have apart : ¬ number = other := fun same => isOther same.symm
      simp [apart]

omit [Unicode] in
theorem get_change : (ops.change number change).get other =
    if other = number then (ops.get number).map change else ops.get other := by
  have isFound := @find_amend _ _ _ Prod.fst (fun entry => (entry.1, change entry.2))
    (fun entry => rfl) ops number other
  unfold Operations.get Operations.change
  rw [isFound]
  split
  · rename_i same
    rw [same, Option.map_map, Option.map_map]
    rfl
  · rfl

end Entries

/-- The operation open has an entry. -/
def Scan.Held (scan : Scan) : Prop := ∀ number ∈ scan.current, (scan.ops.get number).isSome

theorem Scan.Held.readLine (held : scan.Held) : (readLine scan raw).Held := by
  intro number isCurrent
  rw [current_readLine] at isCurrent
  rw [readLine_eq]
  cases isKind : kindOf raw with
  | blank | gap =>
    rw [isKind] at isCurrent
    exact held number isCurrent
  | inner =>
    rw [isKind] at isCurrent
    have isSome := held number isCurrent
    have current : scan.current = some number := isCurrent
    rw [current]
    dsimp only
    rw [get_change, if_pos rfl, Option.isSome_map]
    exact isSome
  | header first =>
    rw [isKind] at isCurrent
    cases isCurrent
    dsimp only
    rw [get_setDefault, if_pos rfl]
    rfl
  | separator | schedule first | other =>
    rw [isKind] at isCurrent
    cases isCurrent

def Scan.body (scan : Scan) (number : Str) : List Str :=
  ((scan.ops.get number).map Operation.body).getD []

/-- What a line adds to the body of an operation. -/
def adds (current : Option Str) (raw number : Str) : List Str :=
  if kindOf raw = .inner ∧ current = some number then [rstrip raw] else []

theorem body_readLine (held : scan.Held) :
    (readLine scan raw).body number = scan.body number ++ adds scan.current raw number := by
  unfold Scan.body adds
  rw [readLine_eq]
  cases isKind : kindOf raw with
  | blank | gap | separator | other => simp
  | header first =>
    rw [if_neg (by simp), append_nil]
    dsimp only
    rw [get_setDefault]
    split
    · rename_i same
      rw [same]
      cases scan.ops.get first <;> rfl
    · rfl
  | schedule first =>
    rw [if_neg (by simp), append_nil]
    dsimp only
    rw [get_change, get_setDefault, get_setDefault, if_pos rfl]
    split
    · rename_i same
      rw [same]
      cases scan.ops.get first <;> rfl
    · rfl
  | inner =>
    cases isCurrent : scan.current with
    | none => simp
    | some first =>
      dsimp only
      rw [get_change]
      by_cases same : number = first
      · obtain ⟨operation, isHeld⟩ := Option.isSome_iff_exists.mp (held first isCurrent)
        simp [same, isHeld, Operation.addBody]
      · have apart : ¬ first = number := fun isSame => same isSame.symm
        simp [same, apart]

/-! ### Where the scans part -/

omit [Unicode] in
theorem Place.Follows.keeps_inner_iff (follows : place.Follows numbers both) :
    (keeps numbers both.skipping .inner ↔ ∀ number ∈ both.read.current, number ∉ numbers) ↔
    place.region ≠ .afterGap ∧ place.region ≠ .afterSeparator := by
  obtain ⟨isOpen, others, region⟩ := follows
  obtain ⟨place, opened⟩ := place
  have isKept : keeps numbers both.skipping .inner = !both.skipping := rfl
  rw [isKept]
  cases place with
  | elsewhere =>
    obtain ⟨notSkipping, same⟩ := region
    rw [notSkipping, same]
    simpa using others
  | definition =>
    obtain ⟨isSkipping, number, isNamed, isCurrent⟩ := region
    rw [isSkipping, isCurrent]
    simpa using isNamed
  | afterGap =>
    obtain ⟨notSkipping, number, isNamed, isCurrent⟩ := region
    rw [notSkipping, isCurrent]
    simpa using isNamed
  | afterSeparator =>
    obtain ⟨isSkipping, isCurrent⟩ := region
    rw [isSkipping, isCurrent]
    simp
  | orphaned =>
    obtain ⟨notSkipping, isCurrent⟩ := region
    rw [notSkipping, isCurrent]
    simp

def Aligned (place : Place) (raw : Str) : Prop :=
  kindOf raw = .inner → place.region ≠ .afterGap ∧ place.region ≠ .afterSeparator

theorem Says.kindOf (telling : Says raw) :
    kindOf raw ≠ .blank ∧ kindOf raw ≠ .gap ∧ kindOf raw ≠ .separator := by
  unfold Recreate.kindOf
  rw [if_neg telling.1, if_neg telling.2]
  split
  · simp
  · split
    · simp
    · split <;> simp

theorem says_of_inner (isInner : kindOf raw = .inner) : Says raw := by
  unfold Recreate.kindOf at isInner
  split at isInner
  · split at isInner <;> cases isInner
  · rename_i notBlank
    refine ⟨notBlank, fun separates => ?_⟩
    rw [if_pos separates] at isInner
    obtain ⟨noHeader, noSchedule⟩ := header_of_separator separates
    rw [noHeader, noSchedule] at isInner
    split at isInner <;> cases isInner

/-- A line that says something is kept exactly where no named operation owns it,
unless it is indented and one of the scans has gone past the end the other sees. -/
theorem survives_owner_iff (telling : Says raw) :
    (Survives numbers before raw ↔ ∀ number ∈ owner before raw, number ∉ numbers) ↔
      Aligned (placeAfter numbers before) raw := by
  rw [survives_iff]
  unfold owner Aligned
  cases isKind : kindOf raw with
  | blank => exact absurd isKind telling.kindOf.1
  | gap => exact absurd isKind telling.kindOf.2.1
  | separator => exact absurd isKind telling.kindOf.2.2
  | other | header number | schedule number => simp [keeps]
  | inner =>
    have follows := @follows_run _ numbers before
    have isRead : (Both.start.run numbers before).read = readLines before := Both.run_read
    rw [← isRead, follows.keeps_inner_iff]
    simp

/-! ### Where they agree, nothing else changes -/

def Both.Matches (numbers : List Str) (both : Both) : Prop :=
  ∀ number, both.kept.ops.get number = if number ∈ numbers then none else both.read.ops.get number

omit [Unicode] in
theorem Both.Matches.change {keptOps readOps : Operations} {change : Operation → Operation}
    (isMatch : ∀ other, keptOps.get other = if other ∈ numbers then none else readOps.get other)
    (unnamed : number ∉ numbers) (other : Str) :
    (keptOps.change number change).get other =
      if other ∈ numbers then none else (readOps.change number change).get other := by
  rw [get_change, get_change, isMatch, isMatch, if_neg unnamed]
  by_cases same : other = number
  · simp [same, unnamed]
  · simp [same]

omit [Unicode] in
theorem Both.Matches.setDefault {keptOps readOps : Operations}
    (isMatch : ∀ other, keptOps.get other = if other ∈ numbers then none else readOps.get other)
    (unnamed : number ∉ numbers) (other : Str) :
    (keptOps.setDefault number).get other =
      if other ∈ numbers then none else (readOps.setDefault number).get other := by
  rw [get_setDefault, get_setDefault, isMatch, isMatch, if_neg unnamed]
  by_cases same : other = number
  · simp [same, unnamed]
  · simp [same]

omit [Unicode] in
theorem Both.Matches.aside {keptOps readOps changed : Operations}
    (isMatch : ∀ other, keptOps.get other = if other ∈ numbers then none else readOps.get other)
    (named : number ∈ numbers) (frame : ∀ other, other ≠ number → changed.get other = readOps.get other)
    (other : Str) : keptOps.get other = if other ∈ numbers then none else changed.get other := by
  rw [isMatch]
  split
  · rfl
  · rename_i unnamed
    rw [frame other (fun same => unnamed (same ▸ named))]

theorem Both.Matches.step (isMatch : both.Matches numbers) (follows : place.Follows numbers both)
    (fits : kindOf raw = .inner → place.Fits) : (both.step numbers raw).Matches numbers := by
  unfold Both.Matches at isMatch ⊢
  unfold Both.step
  dsimp only
  rw [readLine_eq, readLine_eq]
  cases isKind : kindOf raw with
  | blank | gap =>
    rw [ite_self]
    exact isMatch
  | separator | other =>
    dsimp only
    split <;> exact isMatch
  | header number =>
    by_cases isNamed : number ∈ numbers
    · rw [if_neg (by simpa [keeps] using isNamed)]
      refine Both.Matches.aside isMatch isNamed ?_
      intro other isOther
      rw [get_setDefault, if_neg isOther]
    · rw [if_pos (by simpa [keeps] using isNamed)]
      exact Both.Matches.setDefault isMatch isNamed
  | schedule number =>
    by_cases isNamed : number ∈ numbers
    · rw [if_neg (by simpa [keeps] using isNamed)]
      refine Both.Matches.aside isMatch isNamed ?_
      intro other isOther
      rw [get_change, if_neg isOther, get_setDefault, if_neg isOther]
    · rw [if_pos (by simpa [keeps] using isNamed)]
      dsimp only
      exact Both.Matches.change (Both.Matches.setDefault isMatch isNamed) isNamed
  | inner =>
    have fits := fits isKind
    obtain ⟨isOpen, others, region⟩ := follows
    obtain ⟨place, opened⟩ := place
    have isKept : keeps numbers both.skipping .inner = !both.skipping := rfl
    rw [isKept]
    cases place with
    | elsewhere =>
      obtain ⟨notSkipping, same⟩ := region
      rw [notSkipping, if_pos (by rfl), same]
      cases isCurrent : both.kept.current with
      | none => exact isMatch
      | some number =>
        dsimp only
        exact Both.Matches.change isMatch (others number isCurrent)
    | definition =>
      obtain ⟨isSkipping, number, isNamed, isCurrent⟩ := region
      rw [isSkipping, if_neg (by decide), isCurrent]
      refine Both.Matches.aside isMatch isNamed ?_
      intro other isOther
      rw [get_change, if_neg isOther]
    | afterGap | afterSeparator => exact fits.elim
    | orphaned =>
      obtain ⟨notSkipping, isCurrent⟩ := region
      have closed : both.kept.current = none := by
        have isNone : opened = false := fits
        rw [isNone] at isOpen
        simpa using isOpen.symm
      rw [notSkipping, if_pos (by rfl), isCurrent, closed]
      exact isMatch

theorem Both.Matches.run (isMatch : both.Matches numbers) (follows : place.Follows numbers both)
    (fits : ∀ before raw after, lines = before ++ raw :: after → kindOf raw = .inner →
      (place.run numbers before).Fits) : (both.run numbers lines).Matches numbers := by
  induction lines generalizing place both with
  | nil => exact isMatch
  | cons raw lines ih =>
    refine ih (isMatch.step follows (fits [] raw lines rfl)) follows.step ?_
    intro before other after isSplit isInner
    exact fits (raw :: before) other after (by rw [isSplit, cons_append]) isInner

/-! ### Where they part, another operation is given a line -/

/-- Both sides hold an entry for the operation open. -/
def Both.Held (both : Both) : Prop := both.read.Held ∧ both.kept.Held

theorem Both.Held.step (held : both.Held) : (both.step numbers raw).Held := by
  refine ⟨held.1.readLine, ?_⟩
  unfold Both.step
  dsimp only
  split
  · exact held.2.readLine
  · exact held.2

theorem Both.Held.run (held : both.Held) : (both.run numbers lines).Held := by
  induction lines generalizing both with
  | nil => exact held
  | cons raw lines ih => exact ih held.step

def Both.Leads (both : Both) (number : Str) (lead : Nat) : Prop :=
  (both.read.body number).length + lead ≤ (both.kept.body number).length

theorem Both.read_step (held : both.Held) : (both.step numbers raw).read.body number =
    both.read.body number ++ adds both.read.current raw number :=
  body_readLine held.1

theorem Both.kept_step (held : both.Held) : (both.step numbers raw).kept.body number =
    both.kept.body number ++
      if keeps numbers both.skipping (kindOf raw) then adds both.kept.current raw number else [] := by
  unfold Both.step
  dsimp only
  split
  · exact body_readLine held.2
  · rw [append_nil]

theorem Both.Leads.step {lead : Nat} (leads : both.Leads number lead) (held : both.Held)
    (follows : place.Follows numbers both) (aligned : Aligned place raw)
    (unnamed : number ∉ numbers) : (both.step numbers raw).Leads number lead := by
  unfold Both.Leads at leads ⊢
  rw [Both.read_step held, Both.kept_step held, length_append, length_append]
  suffices grows : (adds both.read.current raw number).length ≤
      (if keeps numbers both.skipping (kindOf raw) then adds both.kept.current raw number
        else []).length by omega
  by_cases isInner : kindOf raw = .inner
  · by_cases isCurrent : both.read.current = some number
    · have isKept := (follows.keeps_inner_iff.mpr (aligned isInner)).mpr (by
        intro other isOther
        rw [isCurrent] at isOther
        cases isOther
        exact unnamed)
      obtain ⟨-, -, region⟩ := follows
      have sameCurrent : both.read.current = both.kept.current := by
        cases isRegion : place.region with
        | elsewhere =>
          rw [isRegion] at region
          exact region.2
        | definition =>
          rw [isRegion] at region
          obtain ⟨-, other, isNamed, isOther⟩ := region
          rw [isCurrent] at isOther
          cases isOther
          exact absurd isNamed unnamed
        | afterGap => exact absurd isRegion (aligned isInner).1
        | afterSeparator => exact absurd isRegion (aligned isInner).2
        | orphaned =>
          rw [isRegion] at region
          rw [isCurrent] at region
          cases region.2
      rw [isInner, isKept, if_pos rfl, sameCurrent]
    · unfold adds
      rw [if_neg (fun both => isCurrent both.2)]
      exact Nat.zero_le _
  · unfold adds
    rw [if_neg (fun both => isInner both.1)]
    exact Nat.zero_le _

theorem Both.Leads.run {lead : Nat} (leads : both.Leads number lead) (held : both.Held)
    (follows : place.Follows numbers both)
    (aligned : ∀ before raw after, lines = before ++ raw :: after →
      Aligned (place.run numbers before) raw)
    (unnamed : number ∉ numbers) : (both.run numbers lines).Leads number lead := by
  induction lines generalizing place both with
  | nil => exact leads
  | cons raw lines ih =>
    have later := leads.step held follows (aligned [] raw lines rfl) unnamed
    refine ih later held.step follows.step ?_
    intro before other after isSplit
    exact aligned (raw :: before) other after (by rw [isSplit, cons_append])

theorem Both.Leads.orphan (leads : both.Leads number 0) (held : both.Held)
    (follows : place.Follows numbers both) (isInner : kindOf raw = .inner)
    (isOrphan : place.region = .orphaned) (isCurrent : both.kept.current = some number) :
    (both.step numbers raw).Leads number 1 := by
  obtain ⟨-, -, region⟩ := follows
  rw [isOrphan] at region
  obtain ⟨notSkipping, notRead⟩ := region
  have isKept : keeps numbers both.skipping .inner := by
    rw [notSkipping]
    rfl
  unfold Both.Leads at leads ⊢
  rw [Both.read_step held, Both.kept_step held, isInner, isKept, if_pos rfl, notRead, isCurrent]
  simp only [adds, isInner, length_append]
  simpa using leads

/-! ### The lines of the text left -/

omit [Unicode] in
theorem Both.Matches.body (isMatch : ∀ other, kept.ops.get other =
    if other ∈ numbers then none else read.ops.get other) (unnamed : number ∉ numbers) :
    kept.body number = read.body number := by
  unfold Scan.body
  rw [isMatch, if_neg unnamed]

theorem readLine_nil : readLine scan [] = scan := rfl

theorem foldl_readLine_filter : (lines.filter (fun line => line ≠ [])).foldl readLine scan =
    lines.foldl readLine scan := by
  induction lines generalizing scan with
  | nil => rfl
  | cons raw lines ih =>
    by_cases isEmpty : raw = []
    · rw [filter_cons_of_neg (by simp [isEmpty]), ih, isEmpty, foldl_cons, readLine_nil]
    · rw [filter_cons_of_pos (by simp [isEmpty]), foldl_cons, foldl_cons, ih]

theorem mem_excludeLines (member : raw ∈ excludeLines numbers skipping lines) : raw ∈ lines := by
  induction lines generalizing skipping with
  | nil => cases member
  | cons first lines ih =>
    rw [excludeLines_cons] at member
    split at member
    · rcases mem_cons.mp member with isFirst | later
      · exact mem_cons.mpr (.inl isFirst)
      · exact .tail _ (ih later)
    · exact .tail _ (ih member)

theorem excludeLines_nobody : excludeLines [] false lines = lines := by
  induction lines with
  | nil => rfl
  | cons raw lines ih =>
    rw [excludeLines_cons]
    cases kindOf raw <;> exact congrArg (List.cons raw) ih

theorem operations_exclude : operations (exclude config units) =
    (readLines (excludeLines (units.map Recreated.number) false (splitlines config))).ops := by
  unfold operations exclude
  dsimp only
  by_cases nobody : units.map Recreated.number = []
  · rw [if_pos nobody, nobody, excludeLines_nobody]
  · rw [if_neg nobody]
    have clean : ∀ line ∈ excludeLines (units.map Recreated.number) false (splitlines config),
        ∀ c ∈ line, isLineBreak c = false := by
      intro line member
      exact lineBreak_of_mem_splitlines (mem_excludeLines member)
    have joined := splitlines_joinLines clean (config.getLast? = some '\n')
    unfold readLines
    rw [← foldl_readLine_filter]
    simp only [decide_eq_true_eq] at joined
    rw [joined, foldl_readLine_filter]

/-! ### Exactly -/

/-- **Excluding re-created operations removes exactly them where both scans can read
the text**: an indented line that stands after a separator or a gap of a named
operation's definition, or under its schedule below another operation, is lost or
goes to another. -/
theorem removes_exactly_iff :
    RemovesExactly config units ↔ Legible (units.map Recreated.number) config := by
  unfold RemovesExactly
  rw [operations_exclude]
  unfold operations
  generalize units.map Recreated.number = numbers
  have isRun : (Both.start.run numbers (splitlines config)).read = readLines (splitlines config) ∧
      (Both.start.run numbers (splitlines config)).kept =
        readLines (excludeLines numbers false (splitlines config)) :=
    ⟨Both.run_read, Both.run_kept⟩
  rw [← isRun.1, ← isRun.2]
  constructor
  · rintro ⟨isMatch, survive⟩ before raw after isSplit isInner
    have aligned : ∀ before raw after, splitlines config = before ++ raw :: after →
        Aligned (placeAfter numbers before) raw := by
      intro before raw after isSplit isInner
      have telling := says_of_inner isInner
      exact (survives_owner_iff telling).mp (survive before raw after isSplit telling) isInner
    have here := aligned before raw after isSplit isInner
    have follows := @follows_run _ numbers before
    cases isRegion : (placeAfter numbers before).region with
    | elsewhere | definition => simp [Place.Fits, isRegion]
    | afterGap => exact absurd isRegion here.1
    | afterSeparator => exact absurd isRegion here.2
    | orphaned =>
      unfold Place.Fits
      rw [isRegion]
      dsimp only
      by_contra isOpen
      have isSome : (Both.start.run numbers before).kept.current.isSome = true := by
        rw [← follows.isOpen]
        simpa using isOpen
      obtain ⟨number, isCurrent⟩ := Option.isSome_iff_exists.mp isSome
      have unnamed := follows.others number isCurrent
      have held : Both.start.Held := by
        constructor <;> intro number isCurrent <;> cases isCurrent
      have start : Both.start.Leads number 0 := Nat.le_refl _
      have leads := start.run held follows_start (fun earlier line later
          (isPart : before = earlier ++ line :: later) => by
        refine aligned earlier line (later ++ raw :: after) ?_
        rw [isSplit, isPart, List.append_assoc, List.cons_append]) unnamed
      have ahead := leads.orphan held.run follows isInner isRegion isCurrent
      have last := ahead.run held.run.step follows.step (fun earlier line later
          (isPart : after = earlier ++ line :: later) => by
        have whole := aligned (before ++ raw :: earlier) line later (by
          rw [isSplit, isPart, List.append_assoc, List.cons_append])
        unfold placeAfter Place.run at whole
        rw [List.foldl_append] at whole
        exact whole) unnamed
      rw [← Both.run_cons, ← Both.run_append, ← isSplit] at last
      have same := Both.Matches.body isMatch unnamed
      unfold Both.Leads at last
      rw [same] at last
      omega
  · intro legible
    refine ⟨?_, ?_⟩
    · refine Both.Matches.run ?_ follows_start ?_
      · intro number
        exact (ite_self none).symm
      · exact legible
    · intro before raw after isSplit telling
      refine (survives_owner_iff telling).mpr ?_
      intro isInner
      have fits := legible before raw after isSplit isInner
      unfold Place.Fits at fits
      constructor
      · intro isGap
        rw [isGap] at fits
        exact fits
      · intro isSeparator
        rw [isSeparator] at fits
        exact fits

end Scans

/-- A blank line that is a tab ends the skip, and the line after it is left to the
ordinary merge. -/
theorem tab_not_exact :
    letI : Unicode := basicLatin
    ¬ RemovesExactly "ip sla 1\n icmp-echo 192.0.2.1\n\t\n frequency 60\n".ascii
      [⟨"1".ascii, ⟨[" icmp-echo 192.0.2.1".ascii, " frequency 10".ascii], []⟩,
        ⟨[" icmp-echo 192.0.2.1".ascii, " frequency 60".ascii], []⟩⟩] := by
  letI : Unicode := basicLatin
  rintro ⟨-, survive⟩
  have unnamed := (survive
    ["ip sla 1".ascii, " icmp-echo 192.0.2.1".ascii, "\t".ascii] " frequency 60".ascii []
    (by decide +kernel) (by unfold Says; decide +kernel)).mp (by unfold Survives; decide +kernel)
    "1".ascii (by decide +kernel)
  exact unnamed (by decide +kernel)

end Nmas.Nsot.Recreate
