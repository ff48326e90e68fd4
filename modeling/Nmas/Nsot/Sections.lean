import Nmas.Nsot.Normalize
import Nmas.Outline.Chains

/-!
Owns: the section model. `nsot/sections.py` reads indentation as ancestry over
already filtered lines; `deploy._section_chains` is that reading over
`strip_for_roundtrip` with canonical spelling, and `deploy.config_leaves` keeps
the entries nothing sits under.

Every line this module hands out is canonical, free of line breaks and of
trailing white space, and is not a separator (`IsSectionLine`). The two sides
of every later comparison rest on that.
-/

namespace Nmas.Nsot

open Nmas.Text List
open Nmas.Nsot.IfNames
open Nmas.Nsot.Normalize

instance lawfulPath : LawfulBEq (List Str × Str) := inferInstance

/-- The lines a section reading skips: blank ones, `!` and `end`. -/
def isSectionSeparator (line : Str) : Bool := [[], "!".ascii, "end".ascii].contains (strip line)

/-- `sections.chains`: each kept line with its ancestors, outermost first. The
depth is measured before `norm` is applied. -/
def sectionsOf (norm : Str → Str) (lines : List Str) : List (Str × List Str) :=
  Outline.chains (((lines.map rstrip).filter (fun line => !isSectionSeparator line)).map
    (fun line => (indentOf line, norm line)))

variable [Unicode]

def sectionChains (config : Str) : List (Str × List Str) :=
  sectionsOf canonicaliseLine (stripForRoundtrip config)

/-- `Leaf`: a configuration-bearing line and the headers it sits under. -/
structure Leaf where
  line : Str
  chain : List Str
deriving DecidableEq

/-- A line identified by its section: `(chain, line)`. -/
abbrev Key := List Str × Str

def Leaf.key (leaf : Leaf) : Key := (leaf.chain, leaf.line)

def entryKey (entry : Str × List Str) : Key := (entry.2, entry.1)

/-- The paths of a configuration that other lines sit under. -/
def configHeaders (config : Str) : List (List Str) := Outline.headers (sectionChains config)

def configLeaves (config : Str) : List Leaf :=
  ((sectionChains config).filter
    (fun entry => !(configHeaders config).contains (Outline.path entry))).map
    (fun entry => ⟨entry.1, entry.2⟩)

/-- Every line a configuration holds, by section. -/
def configKeys (config : Str) : List Key := (sectionChains config).map entryKey

/-! ### The lines of a section reading -/

structure IsSectionLine (line : Str) : Prop where
  noBreak : '\n' ∉ line
  canonical : canonicaliseLine line = line
  trimmed : rstrip line = line
  visible : isSectionSeparator line = false

private theorem isSectionSeparator_canonicaliseLine {line : Str} (noBreak : '\n' ∉ line)
    (separator : isSectionSeparator (canonicaliseLine line)) :
    isSectionSeparator line := by
  have plain : ∀ word ∈ [[], "!".ascii, "end".ascii], ∀ c ∈ word, c.toNat < 128 ∧ c.isDigit = false := by
    decide
  have inTable : strip (canonicaliseLine line) ∈ [[], "!".ascii, "end".ascii] := by
    simpa [isSectionSeparator] using separator
  have noDecimal : ∀ c ∈ canonicaliseLine line, isDecimal c = false := by
    intro c inside
    rcases mem_strip_or_space inside with kept | space
    · have ascii := plain _ inTable c kept
      rw [isDecimal_ascii c ascii.1, ascii.2]
    · exact isDecimal_of_isSpace space
  rwa [canonicaliseLine_of_no_decimal noBreak noDecimal] at separator

theorem isSectionLine_of_mem {config : Str} {line : Str} {chain : List Str}
    (member : (line, chain) ∈ sectionChains config) : IsSectionLine line := by
  obtain ⟨depth, found⟩ := Outline.mem_of_mem_chains member
  simp only [mem_map, mem_filter, Prod.mk.injEq] at found
  obtain ⟨stripped, ⟨⟨raw, rawMember, rfl⟩, visible⟩, -, rfl⟩ := found
  have rawNoBreak := noBreak_of_mem_stripForRoundtrip rawMember
  have noBreak : '\n' ∉ rstrip raw := fun inside => rawNoBreak (rstrip_subset inside)
  refine ⟨noBreak_canonicaliseLine noBreak, canonicaliseLine_idem noBreak,
    rstrip_canonicaliseLine noBreak rstrip_rstrip, ?_⟩
  by_contra separator
  have := isSectionSeparator_canonicaliseLine noBreak (by simpa using separator)
  simp [this] at visible

theorem ancestor_mem_sectionChains {config : Str} {line header : Str} {chain above : List Str}
    (member : (line, chain) ∈ sectionChains config) (isPrefix : above ++ [header] <+: chain) :
    (header, above) ∈ sectionChains config :=
  Outline.ancestor_mem_chains member isPrefix

theorem nested_of_mem_sectionChains {config : Str} {line : Str} {chain : List Str}
    (member : (line, chain) ∈ sectionChains config) :
    Outline.Nested indentOf (chain ++ [line]) := by
  refine Outline.nested_of_mem_chains ?_ member
  intro entry inside
  simp only [mem_map, mem_filter] at inside
  obtain ⟨_, ⟨⟨raw, rawMember, rfl⟩, _⟩, rfl⟩ := inside
  have rawNoBreak := noBreak_of_mem_stripForRoundtrip rawMember
  exact indentOf_canonicaliseLine fun inLine => rawNoBreak (rstrip_subset inLine)

theorem isSectionLine_of_mem_chain {config : Str} {line header : Str} {chain : List Str}
    (member : (line, chain) ∈ sectionChains config) (inChain : header ∈ chain) :
    IsSectionLine header := by
  obtain ⟨above, below, split⟩ := append_of_mem inChain
  have isPrefix : above ++ [header] <+: chain := ⟨below, by simp [split]⟩
  exact isSectionLine_of_mem (ancestor_mem_sectionChains member isPrefix)

theorem map_canonicaliseLine_chain {config : Str} {line : Str} {chain : List Str}
    (member : (line, chain) ∈ sectionChains config) : chain.map canonicaliseLine = chain := by
  calc chain.map canonicaliseLine = chain.map id :=
        map_congr_left (fun header inChain =>
          (isSectionLine_of_mem_chain member inChain).canonical)
    _ = chain := map_id chain

/-! ### Leaves and headers -/

theorem mem_configLeaves {config : Str} {leaf : Leaf} :
    leaf ∈ configLeaves config ↔
      (leaf.line, leaf.chain) ∈ sectionChains config ∧
        leaf.chain ++ [leaf.line] ∉ configHeaders config := by
  unfold configLeaves
  simp only [mem_map, mem_filter, Outline.path, contains_eq_mem, Bool.not_eq_true',
    decide_eq_false_iff_not]
  constructor
  · rintro ⟨entry, ⟨member, notHeader⟩, rfl⟩
    exact ⟨member, notHeader⟩
  · rintro ⟨member, notHeader⟩
    exact ⟨(leaf.line, leaf.chain), ⟨member, notHeader⟩, rfl⟩

theorem mem_configKeys {config : Str} {key : Key} :
    key ∈ configKeys config ↔ (key.2, key.1) ∈ sectionChains config := by
  unfold configKeys entryKey
  constructor
  · intro member
    obtain ⟨entry, found, rfl⟩ := mem_map.mp member
    exact found
  · intro found
    exact mem_map.mpr ⟨_, found, rfl⟩

theorem mem_configHeaders_iff {config : Str} {leaf : Leaf} :
    leaf.chain ++ [leaf.line] ∈ configHeaders config ↔
      leaf.key ∈ configKeys config ∧ leaf ∉ configLeaves config := by
  rw [mem_configLeaves, mem_configKeys]
  constructor
  · intro isHeader
    obtain ⟨entry, member, samePath⟩ := Outline.header_is_path isHeader
    obtain ⟨sameChain, sameLine⟩ := append_inj' samePath rfl
    obtain rfl : entry = (leaf.line, leaf.chain) := Prod.ext (by simpa using sameLine) sameChain
    exact ⟨member, fun notHeader => notHeader.2 isHeader⟩
  · rintro ⟨member, notLeaf⟩
    by_contra notHeader
    exact notLeaf ⟨member, notHeader⟩

end Nmas.Nsot
