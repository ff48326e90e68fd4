import Mathlib.Data.Set.Basic
import Nmas.Nsot.Diff.Classify

/-!
Owns: `removal.candidates`, what a person can select for removal, and when it
offers exactly the residue.

Does not own the units' hashed identifiers: they are a digest of the chain and
the line and decide nothing here.

`candidates` works on paths but asks the residue by line text alone, so equal
text under two sections and a bare line that the target opens as a section both
separate the two. `candidates_cover_residue_iff` says that nothing else does.
-/

namespace Nmas.Nsot.Removal

open Nmas.Text List
open Nmas.Nsot.IfNames

def virtualInterfaces : List Str :=
  ["Loopback", "Tunnel", "Vlan", "Port-channel", "BDI", "Virtual-Template", "NVE", "Virtual-PPP",
    "Dialer"].map String.ascii

def isPhysical (header : Str) : Bool :=
  let name := if header.contains ' ' then
      lstrip ((lstrip header).dropWhile (fun c => !isSpace c))
    else []
  name != [] && !name.contains '.' && !startsWithAny virtualInterfaces name

inductive UnitKind where
  | leaf
  | stanza
deriving DecidableEq

structure RemovalUnit where
  chain : List Str
  line : Str
  kind : UnitKind
  children : List Str
deriving DecidableEq

section Units

variable [Unicode]

/-- `target_present`: every path of the target. -/
def targetPresent (target : Str) : List (List Str) :=
  (sectionChains target).map Outline.path ++ configHeaders target

/-- The texts of the residue, by which `candidates` asks for it. -/
def residueTexts (target running : Str) : List Str :=
  (classifyDiff target running).residue.map (fun line => canonicaliseLine (rstrip line))

section Loop

variable (target running : Str)

/-- The stanza unit of a header entry: the header with every line under it. -/
def stanzaUnit (entry : Str × List Str) : RemovalUnit where
  chain := entry.2
  line := entry.1
  kind := .stanza
  children := ((sectionChains running).filter
    (fun other => (Outline.path entry).isPrefixOf other.2)).map Prod.fst

def leafUnit (entry : Str × List Str) : RemovalUnit := ⟨entry.2, entry.1, .leaf, []⟩

def keepsLinesOnOffer (entry : Str × List Str) : Bool :=
  entry.2 == [] && "interface ".ascii.isPrefixOf entry.1 && isPhysical entry.1

def goneAfter (gone : List (List Str)) (entry : Str × List Str) : List (List Str) :=
  if keepsLinesOnOffer entry then gone else gone ++ [Outline.path entry]

/-- The loop of `candidates`, with the stanzas already offered whole. -/
def candidatesFrom (gone : List (List Str)) : List (Str × List Str) → List RemovalUnit
  | [] => []
  | entry :: rest =>
    let path := Outline.path entry
    if gone.any (fun stanza => stanza.isPrefixOf path) then candidatesFrom gone rest
    else if path ∈ configHeaders running ∧ path ∉ targetPresent target then
      stanzaUnit running entry :: candidatesFrom (goneAfter gone entry) rest
    else if path ∉ configHeaders running ∧ entry.1 ∈ residueTexts target running ∧
        path ∉ targetPresent target then
      leafUnit entry :: candidatesFrom gone rest
    else candidatesFrom gone rest

def candidates : List RemovalUnit := candidatesFrom target running [] (sectionChains running)

end Loop

/-- The leaves of the device a unit removes: itself, or all that sits under it. -/
def RemovalUnit.Covers (running : Str) (unit : RemovalUnit) (leaf : Leaf) : Prop :=
  match unit.kind with
  | .leaf => unit.chain = leaf.chain ∧ unit.line = leaf.line
  | .stanza => leaf ∈ configLeaves running ∧ unit.chain ++ [unit.line] <+: leaf.chain

instance (running : Str) (unit : RemovalUnit) (leaf : Leaf) :
    Decidable (unit.Covers running leaf) := by
  unfold RemovalUnit.Covers
  cases unit.kind <;> infer_instance

/-- The leaves that can be selected for removal. -/
def covered (target running : Str) : Set Leaf :=
  {leaf | ∃ unit ∈ candidates target running, unit.Covers running leaf}

/-- The leaves `classify_diff` lists as residue. -/
def residueLeaves (target running : Str) : Set Leaf :=
  {leaf | leaf ∈ configLeaves running ∧ judgeDevice target running leaf = .residue}

/-- The target neither has the leaf nor a leaf that sets the same thing. -/
def Unmatched (target : Str) (leaf : Leaf) : Prop :=
  leaf ∉ configLeaves target ∧ counterpart (configLeaves target) leaf.chain leaf.line = none

/-! ### What the loop offers -/

section Offers

variable {target running : Str}

omit [Unicode] in
private theorem mem_goneAfter {gone : List (List Str)} {entry : Str × List Str}
    {stanza : List Str} (member : stanza ∈ goneAfter gone entry) :
    stanza ∈ gone ∨ stanza = Outline.path entry := by
  unfold goneAfter at member
  split_ifs at member
  · exact .inl member
  · simpa using mem_append.mp member

private theorem unit_of_mem_candidatesFrom {gone : List (List Str)}
    {entries : List (Str × List Str)} {unit : RemovalUnit}
    (member : unit ∈ candidatesFrom target running gone entries) :
    (unit.line, unit.chain) ∈ entries ∧ unit.chain ++ [unit.line] ∉ targetPresent target ∧
      (unit.kind = .stanza ∧ unit.chain ++ [unit.line] ∈ configHeaders running ∨
        unit.kind = .leaf ∧ unit.chain ++ [unit.line] ∉ configHeaders running ∧
          unit.line ∈ residueTexts target running) := by
  induction entries generalizing gone with
  | nil => cases member
  | cons entry rest ih =>
    rw [candidatesFrom] at member
    split_ifs at member with inside stanza leaf
    · exact (ih member).imp_left (mem_cons_of_mem _)
    · rcases mem_cons.mp member with rfl | later
      · exact ⟨.head _, stanza.2, .inl ⟨rfl, stanza.1⟩⟩
      · exact (ih later).imp_left (mem_cons_of_mem _)
    · rcases mem_cons.mp member with rfl | later
      · exact ⟨.head _, leaf.2.2, .inr ⟨rfl, leaf.1, leaf.2.1⟩⟩
      · exact (ih later).imp_left (mem_cons_of_mem _)
    · exact (ih member).imp_left (mem_cons_of_mem _)

private def Offered (target running : Str) (gone : List (List Str))
    (entries : List (Str × List Str)) (path : List Str) : Prop :=
  (∃ stanza ∈ gone, stanza <+: path) ∨
    ∃ unit ∈ candidatesFrom target running gone entries, unit.kind = .stanza ∧
      unit.chain ++ [unit.line] <+: path

private theorem offered_of_header (gone : List (List Str)) {entries : List (Str × List Str)}
    {entry : Str × List Str} (member : entry ∈ entries)
    (isHeader : Outline.path entry ∈ configHeaders running)
    (absent : Outline.path entry ∉ targetPresent target) :
    Offered target running gone entries (Outline.path entry) := by
  induction entries generalizing gone with
  | nil => cases member
  | cons first rest ih =>
    unfold Offered
    rw [candidatesFrom]
    rcases mem_cons.mp member with rfl | later
    · split_ifs with inside stanza leaf
      · simp only [any_eq_true, isPrefixOf_iff_prefix] at inside
        exact .inl inside
      · exact .inr ⟨_, .head _, rfl, prefix_refl _⟩
      · exact absurd isHeader leaf.1
      · exact absurd ⟨isHeader, absent⟩ stanza
    · split_ifs with inside stanza leaf
      · exact ih gone later
      · rcases ih (goneAfter gone first) later with
          ⟨header, found, isPrefix⟩ | ⟨unit, found, isStanza, isPrefix⟩
        · rcases mem_goneAfter found with before | rfl
          · exact .inl ⟨header, before, isPrefix⟩
          · exact .inr ⟨_, .head _, rfl, isPrefix⟩
        · exact .inr ⟨unit, .tail _ found, isStanza, isPrefix⟩
      · rcases ih gone later with old | ⟨unit, found, rest_⟩
        · exact .inl old
        · exact .inr ⟨unit, .tail _ found, rest_⟩
      · exact ih gone later

private theorem offered_of_residue_text (gone : List (List Str)) {entries : List (Str × List Str)}
    {entry : Str × List Str} (member : entry ∈ entries)
    (notHeader : Outline.path entry ∉ configHeaders running)
    (text : entry.1 ∈ residueTexts target running)
    (absent : Outline.path entry ∉ targetPresent target) :
    Offered target running gone entries (Outline.path entry) ∨
      leafUnit entry ∈ candidatesFrom target running gone entries := by
  induction entries generalizing gone with
  | nil => cases member
  | cons first rest ih =>
    unfold Offered
    rw [candidatesFrom]
    rcases mem_cons.mp member with rfl | later
    · split_ifs with inside stanza leaf
      · simp only [any_eq_true, isPrefixOf_iff_prefix] at inside
        exact .inl (.inl inside)
      · exact absurd stanza.1 notHeader
      · exact .inr (.head _)
      · exact absurd ⟨notHeader, text, absent⟩ leaf
    · split_ifs with inside stanza leaf
      · exact ih gone later
      · rcases ih (goneAfter gone first) later with
          (⟨header, found, isPrefix⟩ | ⟨unit, found, isStanza, isPrefix⟩) | alone
        · rcases mem_goneAfter found with before | rfl
          · exact .inl (.inl ⟨header, before, isPrefix⟩)
          · exact .inl (.inr ⟨_, .head _, rfl, isPrefix⟩)
        · exact .inl (.inr ⟨unit, .tail _ found, isStanza, isPrefix⟩)
        · exact .inr (.tail _ alone)
      · rcases ih gone later with (old | ⟨unit, found, rest_⟩) | alone
        · exact .inl (.inl old)
        · exact .inl (.inr ⟨unit, .tail _ found, rest_⟩)
        · exact .inr (.tail _ alone)
      · exact ih gone later

end Offers

/-! ### The offer and the residue -/

section Residue

variable {target running : Str} {leaf : Leaf}

theorem mem_targetPresent {path : List Str} :
    path ∈ targetPresent target ↔ ∃ entry ∈ sectionChains target, Outline.path entry = path := by
  unfold targetPresent
  rw [mem_append, mem_map]
  refine ⟨fun either => either.elim id Outline.header_is_path, .inl⟩

private theorem targetPresent_of_prefix {path above : List Str}
    (present : path ∈ targetPresent target) (isPrefix : above <+: path) (nonempty : above ≠ []) :
    above ∈ targetPresent target := by
  obtain ⟨⟨value, chain⟩, found, rfl⟩ := mem_targetPresent.mp present
  obtain ⟨upper, last, rfl⟩ := eq_nil_or_concat above |>.resolve_left nonempty
  rw [concat_eq_append] at isPrefix ⊢
  rcases prefix_concat_iff.mp isPrefix with whole | shorter
  · exact mem_targetPresent.mpr ⟨_, found, whole.symm⟩
  · exact mem_targetPresent.mpr ⟨_, ancestor_mem_sectionChains found shorter, rfl⟩

private theorem header_of_mem_configLeaves (member : leaf ∈ configLeaves target)
    (nested : leaf.chain ≠ []) : leaf.chain ∈ configHeaders target :=
  Outline.mem_headers.mpr ⟨nested, _, (mem_configLeaves.mp member).1, prefix_refl _⟩

theorem leaf_path_mem_targetPresent :
    leaf.chain ++ [leaf.line] ∈ targetPresent target ↔
      leaf ∈ configLeaves target ∨ leaf.chain ++ [leaf.line] ∈ configHeaders target := by
  rw [mem_targetPresent, mem_configHeaders_iff, mem_configKeys]
  constructor
  · rintro ⟨entry, member, samePath⟩
    obtain ⟨sameChain, sameLine⟩ := append_inj' samePath rfl
    obtain rfl : entry = (leaf.line, leaf.chain) := Prod.ext (by simpa using sameLine) sameChain
    by_cases isLeaf : leaf ∈ configLeaves target
    · exact .inl isLeaf
    · exact .inr ⟨member, isLeaf⟩
  · rintro (isLeaf | isHeader)
    · exact ⟨_, (mem_configLeaves.mp isLeaf).1, rfl⟩
    · exact ⟨_, isHeader.1, rfl⟩

theorem judgeDevice_eq_residue_iff (member : leaf ∈ configLeaves running) :
    judgeDevice target running leaf = .residue ↔ Unmatched target leaf := by
  unfold Unmatched
  rw [judgeDevice_eq member]
  by_cases isLeaf : leaf ∈ configLeaves target
  · simp [isLeaf]
  · rw [if_neg isLeaf]
    cases counterpart (configLeaves target) leaf.chain leaf.line with
    | none => simp [isLeaf]
    | some mate => simp only [isLeaf]; split <;> simp

theorem mem_residueTexts {text : Str} :
    text ∈ residueTexts target running ↔
      ∃ leaf ∈ configLeaves running, Unmatched target leaf ∧ leaf.line = text := by
  have inResidue : ∀ line, line ∈ (classifyDiff target running).residue ↔
      ∃ leaf ∈ configLeaves running, judgeDevice target running leaf = .residue ∧
        leaf.line = line := by
    intro line
    simp only [classifyDiff, mem_filterMap]
    refine exists_congr fun leaf => and_congr_right fun _ => ?_
    cases judgeDevice target running leaf <;> simp
  have spelling : ∀ leaf ∈ configLeaves running, canonicaliseLine (rstrip leaf.line) = leaf.line := by
    intro leaf member
    have sectionLine := isSectionLine_of_mem (mem_configLeaves.mp member).1
    rw [sectionLine.trimmed, sectionLine.canonical]
  unfold residueTexts
  rw [mem_map]
  constructor
  · rintro ⟨line, isResidue, rfl⟩
    obtain ⟨leaf, member, verdict, rfl⟩ := (inResidue line).mp isResidue
    exact ⟨leaf, member, (judgeDevice_eq_residue_iff member).mp verdict, (spelling leaf member).symm⟩
  · rintro ⟨leaf, member, unmatched, rfl⟩
    have verdict := (judgeDevice_eq_residue_iff member).mpr unmatched
    exact ⟨leaf.line, (inResidue _).mpr ⟨leaf, member, verdict, rfl⟩, spelling leaf member⟩

theorem unmatched_of_absent_section (nested : leaf.chain ≠ [])
    (absent : leaf.chain ∉ targetPresent target) : Unmatched target leaf := by
  have emptySection : ∀ other ∈ configLeaves target, other.chain ≠ leaf.chain := by
    intro other member sameSection
    have isHeader := header_of_mem_configLeaves member (sameSection ▸ nested)
    exact absent (mem_append_right _ (sameSection ▸ isHeader))
  exact ⟨fun member => emptySection leaf member rfl,
    counterpart_of_empty_section emptySection leaf.line⟩

theorem mem_covered_iff (member : leaf ∈ configLeaves running) :
    leaf ∈ covered target running ↔
      (leaf.chain ≠ [] ∧ leaf.chain ∉ targetPresent target) ∨
        (leaf.line ∈ residueTexts target running ∧
          leaf.chain ++ [leaf.line] ∉ targetPresent target) := by
  obtain ⟨entry, notHeader⟩ := mem_configLeaves.mp member
  constructor
  · rintro ⟨unit, offered, covers⟩
    obtain ⟨_, absent, ⟨isStanza, _⟩ | ⟨isLeaf, _, text⟩⟩ := unit_of_mem_candidatesFrom offered
    · simp only [RemovalUnit.Covers, isStanza] at covers
      refine .inl ⟨fun topLevel => by simp [topLevel] at covers, fun present => absent ?_⟩
      exact targetPresent_of_prefix present covers.2 (by simp)
    · simp only [RemovalUnit.Covers, isLeaf] at covers
      rw [← covers.1, ← covers.2]
      exact .inr ⟨text, absent⟩
  · rintro (⟨nested, absent⟩ | ⟨text, absent⟩)
    · have isHeader := header_of_mem_configLeaves member nested
      obtain ⟨header, found, samePath⟩ := Outline.header_is_path isHeader
      have stanza : Offered target running [] _ _ := offered_of_header [] found
        (samePath ▸ isHeader) (samePath ▸ absent)
      rcases stanza with ⟨_, inNone, _⟩ | ⟨unit, offered, isStanza, isPrefix⟩
      · cases inNone
      · refine ⟨unit, offered, ?_⟩
        simp only [RemovalUnit.Covers, isStanza]
        exact ⟨member, samePath ▸ isPrefix⟩
    · have byText := offered_of_residue_text [] entry notHeader text absent
      rcases byText with (⟨_, inNone, _⟩ | ⟨unit, offered, isStanza, isPrefix⟩) | alone
      · cases inNone
      · refine ⟨unit, offered, ?_⟩
        simp only [RemovalUnit.Covers, isStanza]
        refine ⟨member, (prefix_concat_iff.mp isPrefix).resolve_left fun whole => ?_⟩
        -- The unit's own path is a header, the leaf's is not.
        obtain ⟨_, _, ⟨_, header⟩ | ⟨isLeaf, _⟩⟩ := unit_of_mem_candidatesFrom offered
        · exact notHeader (whole ▸ header)
        · rw [isStanza] at isLeaf
          cases isLeaf
      · exact ⟨_, alone, rfl, rfl⟩

theorem leaf_of_mem_covered (inCovered : leaf ∈ covered target running) :
    leaf ∈ configLeaves running := by
  obtain ⟨unit, offered, covers⟩ := inCovered
  obtain ⟨found, _, ⟨isStanza, _⟩ | ⟨isLeaf, notHeader, _⟩⟩ := unit_of_mem_candidatesFrom offered
  · simp only [RemovalUnit.Covers, isStanza] at covers
    exact covers.1
  · simp only [RemovalUnit.Covers, isLeaf] at covers
    rw [covers.1, covers.2] at found notHeader
    exact mem_configLeaves.mpr ⟨found, notHeader⟩

/-- One leaf of the device is covered exactly when it is residue, unless the
target opens it as a section or it shares its text with residue elsewhere. -/
theorem covered_iff_unmatched (member : leaf ∈ configLeaves running) :
    (leaf ∈ covered target running ↔ Unmatched target leaf) ↔
      (Unmatched target leaf → leaf.chain ++ [leaf.line] ∉ configHeaders target) ∧
        (¬ Unmatched target leaf → leaf ∉ configLeaves target →
          leaf.chain ++ [leaf.line] ∉ configHeaders target →
            leaf.line ∉ residueTexts target running) := by
  rw [mem_covered_iff member, leaf_path_mem_targetPresent]
  by_cases unmatched : Unmatched target leaf
  · have ownText : leaf.line ∈ residueTexts target running :=
      mem_residueTexts.mpr ⟨leaf, member, unmatched, rfl⟩
    by_cases isHeader : leaf.chain ++ [leaf.line] ∈ configHeaders target
    · -- The target holds the section of each of its headers.
      have present : leaf.chain ≠ [] → leaf.chain ∈ targetPresent target :=
        targetPresent_of_prefix (leaf_path_mem_targetPresent.mpr (.inr isHeader))
          (prefix_append _ _)
      simpa [unmatched, isHeader] using present
    · simp [unmatched, isHeader, ownText, unmatched.1]
  · have presentSection : ¬ (leaf.chain ≠ [] ∧ leaf.chain ∉ targetPresent target) :=
      fun absent => unmatched (unmatched_of_absent_section absent.1 absent.2)
    simp only [unmatched, presentSection, false_or, iff_false, false_imp_iff, true_and,
      not_false_eq_true, true_imp_iff, not_and]
    exact ⟨fun agree notLeaf notHeader text => agree text (not_or.mpr ⟨notLeaf, notHeader⟩),
      fun agree text neither =>
        agree (fun isLeaf => neither (.inl isLeaf)) (fun isHeader => neither (.inr isHeader)) text⟩

/-- **The offer is the residue** exactly when the target opens no unmatched leaf
of the device as a section, and no device leaf that a target line replaces
shares its text with an unmatched one. -/
theorem candidates_cover_residue_iff (target running : Str) :
    covered target running = residueLeaves target running ↔
      (∀ leaf ∈ configLeaves running, Unmatched target leaf →
        leaf.chain ++ [leaf.line] ∉ configHeaders target) ∧
      ∀ leaf ∈ configLeaves running, ¬ Unmatched target leaf → leaf ∉ configLeaves target →
        leaf.chain ++ [leaf.line] ∉ configHeaders target →
          ∀ other ∈ configLeaves running, Unmatched target other → other.line ≠ leaf.line := by
  have agree : covered target running = residueLeaves target running ↔
      ∀ leaf ∈ configLeaves running, leaf ∈ covered target running ↔ Unmatched target leaf := by
    constructor
    · intro same leaf member
      rw [same, ← judgeDevice_eq_residue_iff member]
      exact and_iff_right member
    · intro agree
      ext leaf
      constructor
      · intro inCovered
        have member := leaf_of_mem_covered inCovered
        exact ⟨member, (judgeDevice_eq_residue_iff member).mpr ((agree leaf member).mp inCovered)⟩
      · rintro ⟨member, verdict⟩
        exact (agree leaf member).mpr ((judgeDevice_eq_residue_iff member).mp verdict)
  rw [agree, ← forall₂_and]
  refine forall₂_congr fun leaf member => ?_
  rw [covered_iff_unmatched member, mem_residueTexts]
  simp only [not_exists, not_and]

end Residue

end Units

/-- Two interfaces print the same description; replacing the one offers it for
removal, because the other one's is residue. -/
theorem replaced_description_offered :
    letI : Unicode := basicLatin
    covered "interface Gi1\n description new\ninterface Gi2\n shutdown".ascii
        "interface Gi1\n description old\ninterface Gi2\n description old".ascii ≠
      residueLeaves "interface Gi1\n description new\ninterface Gi2\n shutdown".ascii
        "interface Gi1\n description old\ninterface Gi2\n description old".ascii := by
  intro same
  have offered : letI : Unicode := basicLatin
      ∃ unit ∈ candidates "interface Gi1\n description new\ninterface Gi2\n shutdown".ascii
          "interface Gi1\n description old\ninterface Gi2\n description old".ascii,
        unit.Covers "interface Gi1\n description old\ninterface Gi2\n description old".ascii
          ⟨" description old".ascii, ["interface GigabitEthernet1".ascii]⟩ := by
    decide
  exact absurd (same.subset offered).2 (by decide +kernel)

end Nmas.Nsot.Removal
