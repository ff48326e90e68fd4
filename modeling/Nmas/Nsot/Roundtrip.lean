import Mathlib.Data.Char
import Mathlib.Data.List.Dedup
import Mathlib.Data.List.Lex
import Mathlib.Data.List.Sort
import Mathlib.Order.Defs.LinearOrder
import Nmas.Nsot.Sections
import Nmas.Outline.Grouping

/-!
Owns: `roundtrip.configs_equivalent`, the comparison of two complete
configurations, and what being judged equal means; `stored_is_device`, the same
comparison with both sides' provenance comments out.

Sections are keyed by their joined path. `configsEquivalent_equal_iff` reads the
verdict off the two configurations: the same sections, and in each the same set
of lines. Order and number of the lines do not enter, so an order-significant
section agrees exactly when no such pair of configurations is given
(`equal_orders_agree_iff`).
-/

namespace Nmas.Nsot.Roundtrip

open Nmas.Text List
open Nmas.Nsot.IfNames
open Nmas.Nsot.Normalize

def pathSeparator : Str := " > ".ascii

def pathOf (chain : List Str) : Str := pathSeparator.intercalate chain

/-- `header.split(PATH_SEPARATOR)` with the current part collected in reverse. -/
def splitPathFrom (part : Str) : Str → List Str
  | [] => [part.reverse]
  | ' ' :: '>' :: ' ' :: rest => part.reverse :: splitPathFrom [] rest
  | c :: rest => splitPathFrom (c :: part) rest

/-- `UNORDERED_SECTIONS`, each followed by a word boundary. -/
def unorderedSections : List Str :=
  ["router bgp", "router ospf", "router rip", "ipv6 router", "interface", "vrf definition", "line",
    "ip dhcp pool"].map String.ascii

/-- `ORDER_SIGNIFICANT_SECTIONS`, each followed by a word boundary. -/
def orderSignificantSections : List Str :=
  ["ip access-list", "ipv6 access-list", "ip prefix-list", "route-map", "class-map", "policy-map",
    "ip sla"].map String.ascii

/-- `re.sub(r"\s+", " ", text)`, after a run of white space or not. -/
def collapseFrom : Bool → Str → Str
  | _, [] => []
  | inSpace, c :: rest =>
    if isSpace c then (if inSpace then [] else [' ']) ++ collapseFrom true rest
    else c :: collapseFrom false rest

section Compare

variable [Unicode]

/-- `rule.match(part)` for a rule of the two tables. -/
def ruleMatches (rule part : Str) : Bool := (afterPrefix rule part).any wordEnds

def sectionIsUnordered (header : Str) : Bool :=
  if strip header = [] then true
  else
    let parts := ((splitPathFrom [] header).filter (fun part => strip part != [])).map strip
    if parts.any (fun part => orderSignificantSections.any (fun rule => ruleMatches rule part))
    then false
    else parts.any (fun part => unorderedSections.any (fun rule => ruleMatches rule part))

/-- `_norm`. -/
def normLine (line : Str) : Str := strip (collapseFrom false (canonicaliseLine (strip line)))

/-- The lines of `_sections` with their ancestors. -/
def sectionEntries (config : Str) : List (Str × List Str) :=
  (sectionsOf normLine (splitlines config)).filter (fun entry => entry.1 != [])

/-- What an entry of `_sections` adds, and under which path: a container opens
its own key, any other line goes to its parent's. -/
def sectionItem (containers : List (List Str)) (entry : Str × List Str) : Str × List Str :=
  if Outline.path entry ∈ containers then (pathOf (Outline.path entry), [])
  else (pathOf entry.2, [entry.1])

/-- The additions of `_sections`, in order. -/
def sectionItems (config : Str) : List (Str × List Str) :=
  (sectionEntries config).map (sectionItem (Outline.headers (sectionEntries config)))

def sections (config : Str) : List (Str × List Str) := Outline.group (sectionItems config)

/-- A configuration as `configs_equivalent` reads it. -/
def compared (config : Str) : Str :=
  ['\n'].intercalate (stripSelfSignedCerts (stripForDiff config false true))

/-- The result of `configs_equivalent`. -/
structure Equivalence where
  equal : Bool
  onlyLeft : List Str
  onlyRight : List Str
deriving DecidableEq

/-- What one side holds at a header and the other does not. -/
def onlyAt (header : Str) (own other : Option (List Str)) : List Str :=
  match own, other with
  | none, _ => []
  | some _, none => [header]
  | some children, some others =>
    (children.filter (fun child => !others.contains child)).map
      (fun child => header ++ " :: ".ascii ++ child)

def headersOf (left right : List (Str × List Str)) : List Str :=
  ((left.map Prod.fst ++ right.map Prod.fst).dedup).mergeSort (fun a b => decide (a ≤ b))

def configsEquivalent (left right : Str) : Equivalence :=
  let leftSections := sections (compared left)
  let rightSections := sections (compared right)
  let headers := headersOf leftSections rightSections
  let onlyLeft := headers.flatMap (fun header =>
    onlyAt header (Outline.lookup header leftSections) (Outline.lookup header rightSections))
  let onlyRight := headers.flatMap (fun header =>
    onlyAt header (Outline.lookup header rightSections) (Outline.lookup header leftSections))
  ⟨onlyLeft == [] && onlyRight == [], onlyLeft, onlyRight⟩

/-- A stored configuration without its provenance comments. -/
def unstamped (config : Str) : Str :=
  ['\n'].intercalate (stripProvenanceComments (splitlines config))

def storedIsDevice (stored read : Str) : Equivalence :=
  configsEquivalent (unstamped stored) (unstamped read)

end Compare

/-! ### What being judged equal means -/

section Equal

variable [Unicode]

/-- The lines directly under a section, containers included, in order. -/
def childrenAt (config : Str) (chain : List Str) : List Str :=
  ((sectionEntries (compared config)).filter (fun entry => entry.2 = chain)).map Prod.fst

/-- An order-significant section is the same sequence on both sides. -/
def OrdersAgree (left right : Str) : Prop :=
  ∀ chain, sectionIsUnordered (pathOf chain) = false → childrenAt left chain = childrenAt right chain

def HasSection (config path : Str) : Prop := path ∈ (sectionItems (compared config)).map Prod.fst

/-- The configuration lists a line, container lines apart, in the section at a
path. -/
def HasLine (config path line : Str) : Prop :=
  ∃ item ∈ sectionItems (compared config), item.1 = path ∧ line ∈ item.2

/-- Both sides hold the same sections with the same sets of lines. -/
def SameSets (left right : Str) : Prop :=
  (∀ path, HasSection left path ↔ HasSection right path) ∧
    ∀ path line, HasLine left path line ↔ HasLine right path line

variable {left right : Str}

omit [Unicode] in
private theorem mem_headersOf {leftSections rightSections : List (Str × List Str)} {header : Str} :
    header ∈ headersOf leftSections rightSections ↔
      header ∈ leftSections.map Prod.fst ∨ header ∈ rightSections.map Prod.fst := by
  rw [headersOf, mem_mergeSort, mem_dedup, mem_append]

omit [Unicode] in
private theorem onlyAt_eq_nil_iff {header : Str} {own other : Option (List Str)} :
    onlyAt header own other = [] ↔
      ∀ children, own = some children → ∃ others, other = some others ∧ children ⊆ others := by
  cases own with
  | none => simp [onlyAt]
  | some children =>
    cases other with
    | none => simp [onlyAt]
    | some others =>
      simp [onlyAt, filter_eq_nil_iff, subset_def]

def Included (left right : Str) : Prop :=
  (∀ path, HasSection left path → HasSection right path) ∧
    ∀ path line, HasLine left path line → HasLine right path line

private theorem hasSection_of_lookup {config path : Str} {children : List Str}
    (found : Outline.lookup path (sections (compared config)) = some children) : HasSection config path :=
  (Outline.lookup_group_isSome _ _).mp (Option.isSome_iff_exists.mpr ⟨children, found⟩)

private theorem lookup_of_hasSection {config path : Str} (held : HasSection config path) :
    ∃ children, Outline.lookup path (sections (compared config)) = some children :=
  Option.isSome_iff_exists.mp ((Outline.lookup_group_isSome _ _).mpr held)

theorem hasSection_of_hasLine {config path line : Str} (held : HasLine config path line) :
    HasSection config path := by
  obtain ⟨item, member, samePath, _⟩ := held
  exact mem_map.mpr ⟨item, member, samePath⟩

private theorem only_eq_nil_iff (headers : List Str)
    (complete : ∀ path, HasSection left path → path ∈ headers) :
    headers.flatMap (fun header => onlyAt header (Outline.lookup header (sections (compared left)))
      (Outline.lookup header (sections (compared right)))) = [] ↔ Included left right := by
  simp only [flatMap_eq_nil_iff, onlyAt_eq_nil_iff]
  constructor
  · intro only
    have included : ∀ path children, Outline.lookup path (sections (compared left)) = some children →
        ∃ others, Outline.lookup path (sections (compared right)) = some others ∧ children ⊆ others :=
      fun path children found =>
        only path (complete path (hasSection_of_lookup found)) children found
    constructor
    · intro path held
      obtain ⟨children, found⟩ := lookup_of_hasSection held
      obtain ⟨others, foundRight, _⟩ := included path children found
      exact hasSection_of_lookup foundRight
    · intro path line held
      obtain ⟨children, found⟩ := lookup_of_hasSection (hasSection_of_hasLine held)
      obtain ⟨others, foundRight, subset⟩ := included path children found
      exact (Outline.mem_lookup_group foundRight line).mp
        (subset ((Outline.mem_lookup_group found line).mpr held))
  · intro included path _ children found
    obtain ⟨others, foundRight⟩ :=
      lookup_of_hasSection (included.1 path (hasSection_of_lookup found))
    refine ⟨others, foundRight, fun line inside => ?_⟩
    exact (Outline.mem_lookup_group foundRight line).mpr
      (included.2 path line ((Outline.mem_lookup_group found line).mp inside))

theorem included_of_onlyLeft (nothing : (configsEquivalent left right).onlyLeft = []) :
    Included left right := by
  refine (only_eq_nil_iff (headersOf (sections (compared left)) (sections (compared right)))
    ?_).mp nothing
  intro path held
  exact mem_headersOf.mpr (.inl (Outline.mem_keys_group.mpr held))

theorem onlyRight_of_section {path : Str} (held : HasSection right path)
    (absent : ¬ HasSection left path) : path ∈ (configsEquivalent left right).onlyRight := by
  obtain ⟨children, found⟩ := lookup_of_hasSection held
  have isKey : path ∈ headersOf (sections (compared left)) (sections (compared right)) :=
    mem_headersOf.mpr (.inr (Outline.mem_keys_group.mpr held))
  have missing : Outline.lookup path (sections (compared left)) = none := by
    cases isFound : Outline.lookup path (sections (compared left)) with
    | none => rfl
    | some others => exact absurd (hasSection_of_lookup isFound) absent
  refine mem_flatMap.mpr ⟨path, isKey, ?_⟩
  rw [found, missing]
  exact mem_singleton.mpr rfl

theorem onlyRight_of_line {path line : Str} (held : HasLine right path line)
    (isSection : HasSection left path) (absent : ¬ HasLine left path line) :
    path ++ " :: ".ascii ++ line ∈ (configsEquivalent left right).onlyRight := by
  obtain ⟨children, found⟩ := lookup_of_hasSection (hasSection_of_hasLine held)
  obtain ⟨others, foundLeft⟩ := lookup_of_hasSection isSection
  have isKey : path ∈ headersOf (sections (compared left)) (sections (compared right)) :=
    mem_headersOf.mpr (.inr (Outline.mem_keys_group.mpr (hasSection_of_hasLine held)))
  refine mem_flatMap.mpr ⟨path, isKey, ?_⟩
  rw [found, foundLeft]
  refine mem_map.mpr ⟨line, mem_filter.mpr ⟨?_, ?_⟩, rfl⟩
  · exact (Outline.mem_lookup_group found line).mpr held
  · rw [contains_eq_mem, Bool.not_eq_true', decide_eq_false_iff_not]
    intro inside
    exact absent ((Outline.mem_lookup_group foundLeft line).mp inside)

/-- **Two configurations are judged equal** exactly when they hold the same
sections with the same sets of lines. -/
theorem configsEquivalent_equal_iff :
    (configsEquivalent left right).equal ↔ SameSets left right := by
  have complete : ∀ config, ∀ path, HasSection config path →
      path ∈ (sections (compared config)).map Prod.fst :=
    fun config path held => Outline.mem_keys_group.mpr held
  have fromLeft : _ ↔ Included left right := only_eq_nil_iff
    (headersOf (sections (compared left)) (sections (compared right)))
    (fun path held => mem_headersOf.mpr (.inl (complete left path held)))
  have fromRight : _ ↔ Included right left := only_eq_nil_iff
    (headersOf (sections (compared left)) (sections (compared right)))
    (fun path held => mem_headersOf.mpr (.inr (complete right path held)))
  simp only [configsEquivalent, Bool.and_eq_true, beq_iff_eq, fromLeft, fromRight]
  constructor
  · rintro ⟨toRight, toLeft⟩
    exact ⟨fun path => ⟨toRight.1 path, toLeft.1 path⟩,
      fun path line => ⟨toRight.2 path line, toLeft.2 path line⟩⟩
  · rintro ⟨samePaths, sameLines⟩
    exact ⟨⟨fun path => (samePaths path).mp, fun path line => (sameLines path line).mp⟩,
      fun path => (samePaths path).mpr, fun path line => (sameLines path line).mpr⟩

/-- **Being judged equal means the same order in every order-significant
section** exactly when the two sides are not the same sets of lines in another
order or number there. -/
theorem equal_orders_agree_iff (left right : Str) :
    ((configsEquivalent left right).equal = true → OrdersAgree left right) ↔
      ¬ (SameSets left right ∧ ∃ chain, sectionIsUnordered (pathOf chain) = false ∧
        childrenAt left chain ≠ childrenAt right chain) := by
  rw [configsEquivalent_equal_iff]
  unfold OrdersAgree
  push Not
  rfl

end Equal

/-- An access list with its two entries exchanged is judged equal. -/
theorem swapped_access_list_equal :
    letI : Unicode := basicLatin
    ¬ ((configsEquivalent
          "ip access-list standard EDGE\n permit 192.0.2.1\n deny 192.0.2.0".ascii
          "ip access-list standard EDGE\n deny 192.0.2.0\n permit 192.0.2.1".ascii).equal = true →
        OrdersAgree "ip access-list standard EDGE\n permit 192.0.2.1\n deny 192.0.2.0".ascii
          "ip access-list standard EDGE\n deny 192.0.2.0\n permit 192.0.2.1".ascii) := by
  intro agree
  have sameSequence := agree (by decide +kernel) ["ip access-list standard EDGE".ascii]
    (by decide +kernel)
  exact absurd sameSequence (by decide +kernel)

end Nmas.Nsot.Roundtrip
