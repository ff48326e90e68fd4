import Nmas.Nsot.Program
import Nmas.Nsot.Removal.Verdict
import Nmas.Outline.Modes

/-!
Contract: what becomes of every unit a person selected for removal.

Owns: `_negate`, `negation_program` and `removal_program` of `nsot/removal.py`, and
the selections of which every unit is removed, refused or implied by what is removed.

Does not own the flag on secret positions: it is set beside a removed unit and
decides nothing.
-/

namespace Nmas.Nsot.Removal

open Nmas.Text List
open Nmas.Nsot.IfNames
open Nmas.Nsot.Normalize

/-- What a removal is computed from, besides the selected units. -/
structure Site where
  running : Str
  mgmtIp : Str
  dialect : Str
  /-- This host's addresses, or none where they cannot be read. -/
  addresses : Option (List Str)
  measured : Measured

/-- `removal_program`'s answer. -/
structure RemovalProgram where
  commands : List Str
  removed : List Selected
  refused : List (Selected × Str)
deriving DecidableEq

def negate (line : Str) : Str :=
  let text := strip line
  line.take (indentOf line) ++
    (if "no ".ascii.isPrefixOf text then text.drop 3 else "no ".ascii ++ text)

section Program

variable [Unicode]

def negation (unit : Selected) : Str :=
  match (shapeFor unit.chain unit.line .leaf).bind Shape.negation with
  | some bare => unit.line.take (indentOf unit.line) ++ "no ".ascii ++ bare
  | none => negate unit.line

/-- `negation_program`, before it is checked: no negation opens a level. -/
def negationProgram (units : List Selected) : List Str :=
  Outline.emit (fun _ => false) exitWord (units.map (fun unit => (unit.chain, negation unit)))

/-- A selected unit in the spelling the device's lines are read in. -/
def Selected.canonical (unit : Selected) : Selected :=
  ⟨unit.chain.map canonicaliseLine, canonicaliseLine unit.line⟩

variable [Readers] (site : Site)

/-- The device holds a unit's line where the unit says. -/
def Site.holds (unit : Selected) : Bool :=
  ((sectionChains site.running).map Outline.path).contains unit.path

def Site.verdict (unit : Selected) : Option Str :=
  let running := sectionChains site.running
  let kind := if (configHeaders site.running).contains unit.path then UnitKind.stanza
    else UnitKind.leaf
  (refusal unit running (managementInterfaces running site.mgmtIp)
      (managementRoutesOf running site.addresses)).or
    (unmeasured site.measured site.dialect unit.chain unit.line kind)

def Selected.under (unit other : Selected) : Bool :=
  other.path.isPrefixOf unit.path && unit.path != other.path

inductive Fate where
  | removed
  | refused (reason : Str)
  | implied
deriving DecidableEq

def Site.fate (units : List Selected) (unit : Selected) : Fate :=
  if site.holds unit then
    if units.any unit.under then .implied
    else
      match site.verdict unit with
      | some reason => .refused reason
      | none => .removed
  else .refused "not on the device: it moved since the preview, or was never there".ascii

def Site.removed (units : List Selected) : List Selected :=
  units.filter (fun unit => site.fate units unit = .removed)

def Site.refused (units : List Selected) : List (Selected × Str) :=
  units.filterMap (fun unit =>
    match site.fate units unit with
    | .refused reason => some (unit, reason)
    | _ => none)

def removalProgram (selected : List Selected) : Except DeployError RemovalProgram := do
  let units := selected.map Selected.canonical
  let commands := negationProgram (site.removed units)
  assertSendable commands
  return ⟨commands, site.removed units, site.refused units⟩

end Program

/-! ### A program that can be sent -/

theorem assertSendable_eq_ok_iff {commands : List Str} :
    assertSendable commands = .ok () ↔ ∀ command ∈ commands, ∀ c ∈ command, isPrintable c := by
  have each : (∀ command ∈ commands, ∀ c ∈ command, isPrintable c) ↔
      commands.zipIdx.find? (fun entry => findNonPrintable entry.1 != []) = none := by
    rw [List.find?_eq_none]
    constructor
    · intro printable entry member found
      have nothing := findNonPrintable_eq_nil_iff.mpr (printable entry.1 (mem_of_getElem?
        (mem_zipIdx_iff_getElem?.mp member)))
      rw [nothing] at found
      cases found
    · intro nothing command member
      obtain ⟨index, isAt⟩ := mem_iff_getElem?.mp member
      have silent := nothing (command, index) (mem_zipIdx_iff_getElem?.mpr isAt)
      exact findNonPrintable_eq_nil_iff.mp (by simpa using silent)
  rw [each]
  unfold assertSendable
  cases commands.zipIdx.find? (fun entry => findNonPrintable entry.1 != []) with
  | none | some entry => simp

section Fates

variable [Unicode] [Readers] {site : Site} {units selected : List Selected} {unit : Selected}

/-- What a unit sends can be sent. -/
def Selected.Sendable (unit : Selected) : Prop :=
  (∀ c ∈ negation unit, isPrintable c = true) ∧
    ∀ header ∈ unit.chain, ∀ c ∈ header, isPrintable c = true

omit [Readers] in
theorem sendable_negationProgram :
    assertSendable (negationProgram units) = .ok () ↔ ∀ unit ∈ units, unit.Sendable := by
  have ofExit : ∀ c ∈ exitWord, isPrintable c := by decide
  rw [assertSendable_eq_ok_iff]
  unfold negationProgram Outline.emit
  rw [Outline.forall_mem_emitFrom (P := fun command => ∀ c ∈ command, isPrintable c = true) ofExit
    (fun header inNone => by cases inNone)]
  exact forall_mem_map

def Top (units : List Selected) (unit : Selected) : Prop := units.any unit.under = false

/-- The unit is on the device, no selected unit is above it, nothing refuses it and its
removal was measured. -/
def Site.Removable (site : Site) (units : List Selected) (unit : Selected) : Prop :=
  site.holds unit = true ∧ Top units unit ∧ site.verdict unit = none

omit [Unicode] [Readers] in
theorem not_top_iff : ¬ Top units unit ↔ ∃ other ∈ units, unit.under other := by
  unfold Top
  rw [Bool.not_eq_false, any_eq_true]

theorem fate_removed_iff : site.fate units unit = .removed ↔ site.Removable units unit := by
  unfold Site.fate Site.Removable Top
  cases site.holds unit <;> cases units.any unit.under <;> cases site.verdict unit <;> simp

theorem mem_removed : unit ∈ site.removed units ↔ unit ∈ units ∧ site.Removable units unit := by
  unfold Site.removed
  rw [mem_filter, decide_eq_true_iff, fate_removed_iff]

theorem mem_refused :
    unit ∈ (site.refused units).map Prod.fst ↔
      unit ∈ units ∧ ∃ reason, site.fate units unit = .refused reason := by
  unfold Site.refused
  simp only [mem_map, mem_filterMap]
  constructor
  · rintro ⟨⟨found, reason⟩, ⟨other, member, isFate⟩, rfl⟩
    cases fate : site.fate units other with
    | removed | implied => simp [fate] at isFate
    | refused why =>
      rw [fate] at isFate
      obtain ⟨rfl, rfl⟩ := Prod.mk.inj (Option.some.inj isFate)
      exact ⟨member, _, fate⟩
  · rintro ⟨member, reason, fate⟩
    exact ⟨(unit, reason), ⟨unit, member, by rw [fate]⟩, rfl⟩

theorem refused_iff (member : unit ∈ units) :
    unit ∈ (site.refused units).map Prod.fst ↔
      site.holds unit = false ∨ Top units unit ∧ site.verdict unit ≠ none := by
  rw [mem_refused, and_iff_right member]
  unfold Site.fate Top
  cases site.holds unit <;> cases units.any unit.under <;> cases site.verdict unit <;> simp

def Implied (removed : List Selected) (unit : Selected) : Prop :=
  ∃ other ∈ removed, unit.under other = true

/-- Exactly one of three. -/
def ExactlyOne (first second third : Prop) : Prop :=
  first ∧ ¬ second ∧ ¬ third ∨ ¬ first ∧ second ∧ ¬ third ∨ ¬ first ∧ ¬ second ∧ third

/-- Every selected unit is in exactly one of the two lists of an answer, or under a unit
of the first. -/
def Accounted (program : RemovalProgram) (units : List Selected) : Prop :=
  ∀ unit ∈ units, ExactlyOne (unit ∈ program.removed)
    (unit ∈ program.refused.map Prod.fst) (Implied program.removed unit)

theorem implied_iff : Implied (site.removed units) unit ↔
    ∃ other ∈ units, site.Removable units other ∧ unit.under other := by
  unfold Implied
  simp only [mem_removed, and_assoc]

/-- **One unit** is accounted for exactly when nothing selected is above it, or when it
is on the device just where something above it is removed. -/
theorem accounted_one (member : unit ∈ units) :
    ExactlyOne (unit ∈ site.removed units) (unit ∈ (site.refused units).map Prod.fst)
        (Implied (site.removed units) unit) ↔
      (¬ Top units unit → (site.holds unit ↔
        ∃ other ∈ units, site.Removable units other ∧ unit.under other)) := by
  rw [mem_removed, refused_iff member, implied_iff, and_iff_right member]
  unfold ExactlyOne
  by_cases isTop : Top units unit
  · -- Nothing is above it: it is removed or refused.
    have noneImplies : ¬ ∃ other ∈ units, site.Removable units other ∧ unit.under other :=
      fun ⟨other, isOther, _, above⟩ => not_top_iff.mpr ⟨other, isOther, above⟩ isTop
    have removable : site.Removable units unit ↔ site.holds unit ∧
        site.verdict unit = none := by simp [Site.Removable, isTop]
    rw [removable]
    simp only [noneImplies, isTop, not_true_eq_false, false_imp_iff, iff_true, true_and,
      not_false_eq_true, and_true, and_false, or_false]
    cases site.holds unit <;> cases site.verdict unit <;> simp
  · have notRemovable : ¬ site.Removable units unit := fun removable => isTop removable.2.1
    simp only [isTop, notRemovable, not_false_eq_true, true_imp_iff, false_and, or_false,
      true_and, false_or]
    cases site.holds unit <;> simp

/-- The selections every unit of which is accounted for: what is sent for the removable
units is printable, and a unit under another selected one is on the device just where a
removable unit is above it. -/
structure Site.Settles (site : Site) (units : List Selected) : Prop where
  sendable : ∀ unit ∈ units, site.Removable units unit → unit.Sendable
  above : ∀ unit ∈ units, (∃ other ∈ units, unit.under other = true) →
    (site.holds unit = true ↔ ∃ other ∈ units, site.Removable units other ∧ unit.under other = true)

theorem removalProgram_eq_ok_iff {program : RemovalProgram} :
    removalProgram site selected = .ok program ↔
      assertSendable (negationProgram (site.removed (selected.map Selected.canonical))) = .ok () ∧
        program = ⟨negationProgram (site.removed (selected.map Selected.canonical)),
          site.removed (selected.map Selected.canonical),
          site.refused (selected.map Selected.canonical)⟩ := by
  unfold removalProgram
  dsimp only
  cases assertSendable (negationProgram (site.removed (selected.map Selected.canonical))) with
  | error refused => simp [bind, Except.bind]
  | ok => simp [bind, Except.bind, pure, Except.pure, eq_comm]

end Fates

/-- **Every selected unit is accounted for** exactly when the selection settles. -/
theorem selection_accounted_iff [Unicode] [Readers] (site : Site) (selected : List Selected) :
    (∃ program, removalProgram site selected = .ok program ∧
        Accounted program (selected.map Selected.canonical)) ↔
      site.Settles (selected.map Selected.canonical) := by
  constructor
  · rintro ⟨program, isProgram, accounted⟩
    obtain ⟨isSent, rfl⟩ := removalProgram_eq_ok_iff.mp isProgram
    refine ⟨fun unit member removable => ?_, fun unit member above => ?_⟩
    · exact sendable_negationProgram.mp isSent unit (mem_removed.mpr ⟨member, removable⟩)
    · exact (accounted_one member).mp (accounted unit member) (not_top_iff.mpr above)
  · intro settles
    refine ⟨_, removalProgram_eq_ok_iff.mpr ⟨?_, rfl⟩, fun unit member => ?_⟩
    · refine sendable_negationProgram.mpr fun unit isRemoved => ?_
      obtain ⟨member, removable⟩ := mem_removed.mp isRemoved
      exact settles.sendable unit member removable
    · exact (accounted_one member).mpr fun notTop =>
        settles.above unit member (not_top_iff.mp notTop)

/-- A description selected together with its physical interface: the interface is refused
and the description is neither removed nor refused. -/
theorem physical_header_drops_description :
    letI : Unicode := basicLatin
    letI : Readers := plainReaders
    let site : Site := ⟨"interface GigabitEthernet0/1\n description uplink".ascii, [],
      "cisco_ios".ascii, some [],
      .rows [(("cisco_ios".ascii, "interface.description".ascii),
        ⟨"exact".ascii, "s4".ascii, "2026-09-29T04:17:53Z".ascii, []⟩)] []⟩
    let selected : List Selected := [⟨[], "interface GigabitEthernet0/1".ascii⟩,
      ⟨["interface GigabitEthernet0/1".ascii], " description uplink".ascii⟩]
    (removalProgram site selected).toOption.map (fun program =>
        (program.removed, program.refused.map Prod.fst)) =
      some ([], [⟨[], "interface GigabitEthernet0/1".ascii⟩]) ∧
    ¬ ∃ program, removalProgram site selected = .ok program ∧
      Accounted program (selected.map Selected.canonical) := by
  intro site selected
  have isProgram :
      letI : Unicode := basicLatin
      letI : Readers := plainReaders
      (removalProgram site selected).toOption.map (fun program =>
        (program.removed, program.refused.map Prod.fst)) =
          some ([], [⟨[], "interface GigabitEthernet0/1".ascii⟩]) := by decide
  refine ⟨isProgram, ?_⟩
  rintro ⟨program, isOk, accounted⟩
  rw [isOk] at isProgram
  obtain ⟨noneRemoved, oneRefused⟩ := Prod.mk.inj (Option.some.inj isProgram)
  have description := accounted ⟨["interface GigabitEthernet0/1".ascii],
    " description uplink".ascii⟩ (by decide)
  unfold Implied at description
  rw [noneRemoved, oneRefused] at description
  revert description
  unfold ExactlyOne
  simp only [List.not_mem_nil, List.mem_singleton, false_and, exists_false]
  decide

end Nmas.Nsot.Removal
