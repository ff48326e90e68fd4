import Mathlib
import Nmas.Nsot.PlatformDefaults
import Nmas.Nsot.Roundtrip
import Nmas.Outline.Grouping

/-!
Contract: the round-trip report of a device.

Owns: `roundtrip.compare`: the findings of a rendered configuration against the
running one, their counts, and `ok`.

Does not own: what strip-for-roundtrip leaves out, which a report names beside
its counts. A percentage stands as it is before it is rounded.
-/

namespace Nmas.Nsot.Coverage

open Nmas.Text List
open Nmas.Nsot.Normalize Nmas.Nsot.PlatformDefaults Nmas.Nsot.Roundtrip

/-! ## The findings -/

inductive Kind where
  | section_
  | child
deriving DecidableEq

/-- An entry of `matched`, `missing` or `extra`. -/
structure Finding where
  section_ : Str
  line : Str
  kind : Kind
deriving DecidableEq

/-- An entry of `reordered`. -/
structure Reordered where
  section_ : Str
  running : List Str
  rendered : List Str
deriving DecidableEq

/-- The four lists of `compare`. -/
structure Findings where
  matched : List Finding
  missing : List Finding
  extra : List Finding
  reordered : List Reordered
deriving DecidableEq

def Findings.none_ : Findings := ⟨[], [], [], []⟩

def Findings.and (one other : Findings) : Findings :=
  ⟨one.matched ++ other.matched, one.missing ++ other.missing, one.extra ++ other.extra,
    one.reordered ++ other.reordered⟩

def leafOf (path : Str) : Str := if path = [] then [] else (splitPathFrom [] path).getLast?.getD []

/-- The entry of a section itself: none of the global scope's. -/
def ofSection (header : Str) : List Finding :=
  if header = [] then [] else [⟨header, leafOf header, .section_⟩]

def ofChildren (header : Str) (children : List Str) : List Finding :=
  children.map (fun child => ⟨header, child, .child⟩)

def byRemoval (header : Str) (running rendered : List Str) : Findings :=
  let found := Outline.matchOff running rendered
  ⟨ofChildren header found.matched, ofChildren header found.missing,
    ofChildren header found.leftOver, []⟩

/-- `sorted` of a section's lines. -/
def sorted (lines : List Str) : List Str := lines.mergeSort (fun a b => decide (a ≤ b))

section Compare

variable [Unicode]

def compareChildren (header : Str) (running rendered : List Str) : Findings :=
  if sectionIsUnordered header then byRemoval header running rendered
  else if running = rendered then ⟨ofChildren header running, [], [], []⟩
  else if sorted running = sorted rendered then
    ⟨ofChildren header running, [], [], [⟨header, running, rendered⟩]⟩
  else byRemoval header running rendered

def ofRunning (rendered : List (Str × List Str)) (entry : Str × List Str) : Findings :=
  match Outline.lookup entry.1 rendered with
  | none => ⟨[], ofSection entry.1 ++ ofChildren entry.1 entry.2, [], []⟩
  | some others =>
    Findings.and ⟨ofSection entry.1, [], [], []⟩ (compareChildren entry.1 entry.2 others)

def ofRendered (running : List (Str × List Str)) (entry : Str × List Str) : Findings :=
  match Outline.lookup entry.1 running with
  | none => ⟨[], [], ofSection entry.1 ++ ofChildren entry.1 entry.2, []⟩
  | some _ => .none_

def compareSections (running rendered : List (Str × List Str)) : Findings :=
  (running.map (ofRunning rendered) ++ rendered.map (ofRendered running)).foldl Findings.and .none_

/-! ## The report -/

/-- An entry of `unmodeled`. -/
structure Unmodeled where
  line : Str
  children : List Str

/-- The host variables, as far as `compare` reads them. -/
structure HostVars where
  unmodeled : List Unmodeled
  /-- The `unmodeled` lines of each interface. -/
  interfaces : List (List Str)

def countUnmodeled (hostVars : HostVars) : ℕ :=
  (hostVars.unmodeled.map (fun entry => 1 + entry.children.length)).sum +
    (hostVars.interfaces.map List.length).sum

/-- What `compare` returns. -/
structure Report where
  matched : ℕ
  modeledMatched : ℕ
  missingFromRender : ℕ
  extraInRender : ℕ
  unmodeled : ℕ
  reorderedSections : ℕ
  modeledCoverage : ℚ
  roundTripFidelity : ℚ
  ok : Bool
  details : Findings

def percentOf (part whole : ℕ) : ℚ := if whole = 0 then 0 else 100 * part / whole

def reportOf (found : Findings) (hostVars : HostVars) : Report :=
  let unmodeled := countUnmodeled hostVars
  let modeledMatched := found.matched.length - unmodeled
  { matched := found.matched.length
    modeledMatched := modeledMatched
    missingFromRender := found.missing.length
    extraInRender := found.extra.length
    unmodeled := unmodeled
    reorderedSections := found.reordered.length
    modeledCoverage := percentOf modeledMatched (modeledMatched + found.missing.length + unmodeled)
    roundTripFidelity :=
      percentOf found.matched.length (found.matched.length + found.missing.length)
    ok := found.missing.isEmpty && found.extra.isEmpty && found.reordered.isEmpty
    details := found }

/-- The sections of a configuration that `compare` reads. -/
def readSections (config : Str) : List (Str × List Str) :=
  sections (stripHidden (['\n'].intercalate (stripForRoundtrip config)))

def compare (runningConfig renderedConfig : Str) (hostVars : HostVars) : Report :=
  reportOf (compareSections (readSections runningConfig) (readSections renderedConfig)) hostVars

/-! ## What the counts are of -/

/-- The headers and the children of a configuration's sections. -/
def lineCount (sections : List (Str × List Str)) : ℕ :=
  (sections.map (fun entry => (ofSection entry.1).length + entry.2.length)).sum

/-- The same paths, and in each the same lines: as often, and in the same order
where it matters. -/
def SameSections (running rendered : List (Str × List Str)) : Prop :=
  (∀ header, header ∈ running.map Prod.fst ↔ header ∈ rendered.map Prod.fst) ∧
    ∀ header own others, Outline.lookup header running = some own →
      Outline.lookup header rendered = some others →
        if sectionIsUnordered header then own.Perm others else own = others

def Findings.IsClean (found : Findings) : Prop :=
  found.missing = [] ∧ found.extra = [] ∧ found.reordered = []

omit [Unicode] in
theorem sorted_eq_iff {own others : List Str} : sorted own = sorted others ↔ own.Perm others := by
  constructor
  · intro same
    have isOwn := mergeSort_perm own (fun a b => decide (a ≤ b))
    have isOthers := mergeSort_perm others (fun a b => decide (a ≤ b))
    rw [sorted, sorted] at same
    rw [same] at isOwn
    exact isOwn.symm.trans isOthers
  · intro same
    have isOrdered (lines : List Str) : (sorted lines).Pairwise (· ≤ ·) := by
      have sortedLines : (lines.mergeSort (fun a b => decide (a ≤ b))).Pairwise
          (fun a b => decide (a ≤ b) = true) := pairwise_mergeSort
        (fun a b c first second => by
          simp only [decide_eq_true_eq] at first second ⊢
          exact first.trans second)
        (fun a b => by simpa using le_total a b) lines
      simpa [sorted] using sortedLines
    exact List.Perm.eq_of_pairwise (fun a b _ _ => le_antisymm) (isOrdered own) (isOrdered others)
      (((mergeSort_perm own _).trans same).trans (mergeSort_perm others _).symm)

omit [Unicode] in
theorem foldl_and (all : List Findings) (start : Findings) :
    all.foldl Findings.and start =
      ⟨start.matched ++ all.flatMap Findings.matched,
        start.missing ++ all.flatMap Findings.missing,
        start.extra ++ all.flatMap Findings.extra,
        start.reordered ++ all.flatMap Findings.reordered⟩ := by
  induction all generalizing start with
  | nil => simp
  | cons found all ih => simp [ih, Findings.and]

omit [Unicode] in
@[simp]
theorem length_ofChildren (header : Str) (children : List Str) :
    (ofChildren header children).length = children.length := length_map _

/-- What the children of a section come to. -/
structure Counted (running rendered : List Str) (found : Findings) : Prop where
  own : found.matched.length + found.missing.length = running.length
  others : found.matched.length + found.extra.length = rendered.length

omit [Unicode] in
theorem counted_byRemoval (header : Str) (running rendered : List Str) :
    Counted running rendered (byRemoval header running rendered) := by
  have own := (Outline.matchOff_own running rendered).length_eq
  have others := (Outline.matchOff_others running rendered).length_eq
  rw [length_append] at own others
  constructor
  · simpa [byRemoval] using own
  · simpa [byRemoval] using others

omit [Unicode] in
theorem isClean_byRemoval_iff (header : Str) (running rendered : List Str) :
    (byRemoval header running rendered).IsClean ↔ running.Perm rendered := by
  rw [← Outline.matchOff_exact_iff]
  simp [Findings.IsClean, byRemoval, ofChildren]

theorem counted_compareChildren (header : Str) (running rendered : List Str) :
    Counted running rendered (compareChildren header running rendered) := by
  unfold compareChildren
  split
  · exact counted_byRemoval header running rendered
  · split
    · rename_i same
      subst same
      constructor <;> simp
    · split
      · rename_i reordered
        have sameLength := (sorted_eq_iff.mp reordered).length_eq
        constructor
        · simp
        · simpa using sameLength
      · exact counted_byRemoval header running rendered

theorem isClean_compareChildren_iff (header : Str) (running rendered : List Str) :
    (compareChildren header running rendered).IsClean ↔
      if sectionIsUnordered header then running.Perm rendered else running = rendered := by
  unfold compareChildren
  split
  · exact isClean_byRemoval_iff header running rendered
  · split
    · rename_i same
      exact iff_of_true ⟨rfl, rfl, rfl⟩ same
    · rename_i differs
      refine iff_of_false ?_ differs
      split
      · simp [Findings.IsClean]
      · rename_i notReordered
        rw [isClean_byRemoval_iff]
        exact fun same => notReordered (sorted_eq_iff.mpr same)

/-! ## Section by section -/

variable {running rendered : List (Str × List Str)}

theorem compareSections_eq (running rendered : List (Str × List Str)) :
    compareSections running rendered =
      ⟨running.flatMap (fun entry => (ofRunning rendered entry).matched) ++
          rendered.flatMap (fun entry => (ofRendered running entry).matched),
        running.flatMap (fun entry => (ofRunning rendered entry).missing) ++
          rendered.flatMap (fun entry => (ofRendered running entry).missing),
        running.flatMap (fun entry => (ofRunning rendered entry).extra) ++
          rendered.flatMap (fun entry => (ofRendered running entry).extra),
        running.flatMap (fun entry => (ofRunning rendered entry).reordered) ++
          rendered.flatMap (fun entry => (ofRendered running entry).reordered)⟩ := by
  simp [compareSections, foldl_and, Findings.none_, flatMap_map]

def weight (header : Str) (children : List Str) : ℕ := (ofSection header).length + children.length

theorem ofRunning_own (rendered : List (Str × List Str)) (entry : Str × List Str) :
    (ofRunning rendered entry).matched.length + (ofRunning rendered entry).missing.length =
      weight entry.1 entry.2 := by
  unfold ofRunning
  cases Outline.lookup entry.1 rendered with
  | none => simp [weight]
  | some others =>
    have counted := (counted_compareChildren entry.1 entry.2 others).own
    simp only [Findings.and, length_append, nil_append, weight]
    omega

theorem ofRunning_others (rendered : List (Str × List Str)) (entry : Str × List Str) :
    (ofRunning rendered entry).matched.length + (ofRunning rendered entry).extra.length =
      (Outline.lookup entry.1 rendered).elim 0 (weight entry.1) := by
  unfold ofRunning
  cases Outline.lookup entry.1 rendered with
  | none => rfl
  | some others =>
    have counted := (counted_compareChildren entry.1 entry.2 others).others
    simp only [Findings.and, length_append, nil_append, weight, Option.elim]
    omega

omit [Unicode] in
theorem ofRendered_eq (running : List (Str × List Str)) (entry : Str × List Str) :
    ofRendered running entry =
      if (Outline.lookup entry.1 running).isSome then .none_
      else ⟨[], [], ofSection entry.1 ++ ofChildren entry.1 entry.2, []⟩ := by
  unfold ofRendered
  cases Outline.lookup entry.1 running <;> rfl

omit [Unicode] in
theorem ofRendered_matched (running : List (Str × List Str)) (entry : Str × List Str) :
    (ofRendered running entry).matched = [] ∧ (ofRendered running entry).missing = [] := by
  rw [ofRendered_eq]
  split <;> exact ⟨rfl, rfl⟩

theorem compareSections_own (running rendered : List (Str × List Str)) :
    (compareSections running rendered).matched.length +
      (compareSections running rendered).missing.length = lineCount running := by
  have own := congrArg List.sum (map_congr_left (l := running)
    fun entry _ => ofRunning_own rendered entry)
  rw [sum_map_add] at own
  simp [compareSections_eq, ofRendered_matched, length_flatMap, own, lineCount, weight]

theorem compareSections_others (nodupRunning : (running.map Prod.fst).Nodup)
    (nodupRendered : (rendered.map Prod.fst).Nodup) :
    (compareSections running rendered).matched.length +
      (compareSections running rendered).extra.length = lineCount rendered := by
  have shared := congrArg List.sum (map_congr_left (l := running)
    fun entry _ => ofRunning_others rendered entry)
  rw [sum_map_add, Outline.sum_lookup weight nodupRunning nodupRendered] at shared
  have alone : (rendered.map (fun entry => (ofRendered running entry).extra.length)).sum =
      (rendered.map (fun entry =>
        if (Outline.lookup entry.1 running).isSome then 0 else weight entry.1 entry.2)).sum := by
    refine congrArg List.sum (map_congr_left fun entry _ => ?_)
    rw [ofRendered_eq]
    split
    · rfl
    · simp [weight]
  have both : lineCount rendered =
      (rendered.map (fun entry =>
        if (Outline.lookup entry.1 running).isSome then weight entry.1 entry.2 else 0)).sum +
      (rendered.map (fun entry =>
        if (Outline.lookup entry.1 running).isSome then 0 else weight entry.1 entry.2)).sum := by
    rw [← sum_map_add, lineCount]
    refine congrArg List.sum (map_congr_left fun entry _ => ?_)
    split <;> simp [weight]
  have noneMatched :
      (rendered.map (fun entry => (ofRendered running entry).matched.length)).sum = 0 := by
    simp [ofRendered_matched]
  rw [compareSections_eq, both, ← shared, ← alone]
  simp only [length_append, length_flatMap, noneMatched]
  omega

omit [Unicode] in
theorem isClean_and_iff {one other : Findings} :
    (one.and other).IsClean ↔ one.IsClean ∧ other.IsClean := by
  simp only [Findings.IsClean, Findings.and, append_eq_nil_iff]
  constructor
  · rintro ⟨⟨missing, missing'⟩, ⟨extra, extra'⟩, reordered, reordered'⟩
    exact ⟨⟨missing, extra, reordered⟩, missing', extra', reordered'⟩
  · rintro ⟨⟨missing, extra, reordered⟩, missing', extra', reordered'⟩
    exact ⟨⟨missing, missing'⟩, ⟨extra, extra'⟩, reordered, reordered'⟩

theorem isClean_compareSections_iff :
    (compareSections running rendered).IsClean ↔
      (∀ entry ∈ running, (ofRunning rendered entry).IsClean) ∧
        ∀ entry ∈ rendered, (ofRendered running entry).IsClean := by
  simp only [compareSections_eq, Findings.IsClean, append_eq_nil_iff, flatMap_eq_nil_iff]
  constructor
  · rintro ⟨⟨missing, missing'⟩, ⟨extra, extra'⟩, reordered, reordered'⟩
    exact ⟨fun entry isIn => ⟨missing entry isIn, extra entry isIn, reordered entry isIn⟩,
      fun entry isIn => ⟨missing' entry isIn, extra' entry isIn, reordered' entry isIn⟩⟩
  · rintro ⟨ofOwn, ofOthers⟩
    exact ⟨⟨fun entry isIn => (ofOwn entry isIn).1, fun entry isIn => (ofOthers entry isIn).1⟩,
      ⟨fun entry isIn => (ofOwn entry isIn).2.1, fun entry isIn => (ofOthers entry isIn).2.1⟩,
      fun entry isIn => (ofOwn entry isIn).2.2, fun entry isIn => (ofOthers entry isIn).2.2⟩

def ScopeHasLines (sections : List (Str × List Str)) : Prop :=
  ∀ entry ∈ sections, entry.1 = [] → entry.2 ≠ []

omit [Unicode] in
theorem someLine_of_scope {sections : List (Str × List Str)} (scope : ScopeHasLines sections)
    {entry : Str × List Str} (member : entry ∈ sections) :
    ofSection entry.1 ++ ofChildren entry.1 entry.2 ≠ [] := by
  intro isEmpty
  obtain ⟨noSection, noChildren⟩ := append_eq_nil_iff.mp isEmpty
  have isScope : entry.1 = [] := by
    by_contra notScope
    simp [ofSection, notScope] at noSection
  exact scope entry member isScope (map_eq_nil_iff.mp noChildren)

theorem isClean_ofRunning_iff (scope : ScopeHasLines running) {entry : Str × List Str}
    (member : entry ∈ running) :
    (ofRunning rendered entry).IsClean ↔
      ∃ others, Outline.lookup entry.1 rendered = some others ∧
        if sectionIsUnordered entry.1 then entry.2.Perm others else entry.2 = others := by
  unfold ofRunning
  cases Outline.lookup entry.1 rendered with
  | none =>
    refine iff_of_false (fun clean => someLine_of_scope scope member clean.1) ?_
    rintro ⟨others, isFound, -⟩
    cases isFound
  | some others =>
    simp only [isClean_and_iff, isClean_compareChildren_iff, Option.some.injEq, exists_eq_left']
    exact and_iff_right ⟨rfl, rfl, rfl⟩

omit [Unicode] in
theorem isClean_ofRendered_iff (scope : ScopeHasLines rendered) {entry : Str × List Str}
    (member : entry ∈ rendered) :
    (ofRendered running entry).IsClean ↔ entry.1 ∈ running.map Prod.fst := by
  unfold ofRendered
  cases found : Outline.lookup entry.1 running with
  | none =>
    refine iff_of_false (fun clean => someLine_of_scope scope member clean.2.1) ?_
    exact Outline.lookup_eq_none_iff.mp found
  | some values =>
    refine iff_of_true ⟨rfl, rfl, rfl⟩ ?_
    by_contra absent
    rw [Outline.lookup_eq_none_iff.mpr absent] at found
    cases found

theorem isClean_iff_same (nodupRunning : (running.map Prod.fst).Nodup)
    (nodupRendered : (rendered.map Prod.fst).Nodup) (scopeRunning : ScopeHasLines running)
    (scopeRendered : ScopeHasLines rendered) :
    (compareSections running rendered).IsClean ↔ SameSections running rendered := by
  rw [isClean_compareSections_iff]
  constructor
  · rintro ⟨ofOwn, ofOthers⟩
    constructor
    · intro header
      constructor
      · intro inRunning
        obtain ⟨entry, member, rfl⟩ := mem_map.mp inRunning
        obtain ⟨others, isFound, -⟩ :=
          (isClean_ofRunning_iff scopeRunning member).mp (ofOwn entry member)
        rw [Outline.lookup_eq_some_iff nodupRendered] at isFound
        exact mem_map.mpr ⟨_, isFound, rfl⟩
      · intro inRendered
        obtain ⟨entry, member, rfl⟩ := mem_map.mp inRendered
        exact (isClean_ofRendered_iff scopeRendered member).mp (ofOthers entry member)
    · intro header own others isOwn isOthers
      have member := (Outline.lookup_eq_some_iff nodupRunning).mp isOwn
      obtain ⟨found, isFound, same⟩ :=
        (isClean_ofRunning_iff scopeRunning member).mp (ofOwn _ member)
      rw [isOthers] at isFound
      cases isFound
      exact same
  · rintro ⟨sameHeaders, sameLines⟩
    constructor
    · intro entry member
      have inRendered := (sameHeaders entry.1).mp (mem_map.mpr ⟨entry, member, rfl⟩)
      cases isFound : Outline.lookup entry.1 rendered with
      | none => exact absurd inRendered (Outline.lookup_eq_none_iff.mp isFound)
      | some others =>
        rw [isClean_ofRunning_iff scopeRunning member]
        exact ⟨others, isFound, sameLines entry.1 entry.2 others
          ((Outline.lookup_eq_some_iff nodupRunning).mpr member) isFound⟩
    · intro entry member
      rw [isClean_ofRendered_iff scopeRendered member, sameHeaders]
      exact mem_map.mpr ⟨entry, member, rfl⟩

/-! ## A configuration's sections -/

omit [Unicode] in
theorem pathOf_ne_nil {entry : Str × List Str} (notEmpty : entry.1 ≠ []) :
    pathOf (Outline.path entry) ≠ [] := by
  obtain ⟨line, chain⟩ := entry
  unfold Outline.path pathOf
  induction chain with
  | nil => simpa using notEmpty
  | cons header chain ih =>
    intro isEmpty
    rw [cons_append, intercalate_cons_of_ne_nil (by simp)] at isEmpty
    exact ih notEmpty (append_eq_nil_iff.mp isEmpty).2

theorem scopeHasLines_sections (config : Str) : ScopeHasLines (sections config) := by
  intro entry member isScope isEmpty
  have found := (Outline.lookup_eq_some_iff (Outline.nodup_keys_group (sectionItems config))).mpr
    member
  rw [isEmpty, isScope, Outline.lookup_group] at found
  split at found
  · rename_i inItems
    obtain ⟨item, isItem, isKey⟩ := mem_map.mp inItems
    obtain ⟨line, isLine, rfl⟩ := mem_map.mp isItem
    have noLine := flatMap_eq_nil_iff.mp (Option.some.inj found) _
      (mem_filter.mpr ⟨isItem, decide_eq_true isKey⟩)
    rw [sectionItem] at noLine isKey
    split at isKey
    · have notEmpty : line.1 ≠ [] := bne_iff_ne.mp (mem_filter.mp isLine).2
      exact pathOf_ne_nil notEmpty isKey
    · rename_i notContainer
      rw [if_neg notContainer] at noLine
      cases noLine
  · cases found

/-- The report counts each line once, and is all right exactly when the sections
are the same. -/
theorem compare_exact (runningConfig renderedConfig : Str) (hostVars : HostVars) :
    (compare runningConfig renderedConfig hostVars).matched +
        (compare runningConfig renderedConfig hostVars).missingFromRender =
      lineCount (readSections runningConfig) ∧
    (compare runningConfig renderedConfig hostVars).matched +
        (compare runningConfig renderedConfig hostVars).extraInRender =
      lineCount (readSections renderedConfig) ∧
    ((compare runningConfig renderedConfig hostVars).ok ↔
      SameSections (readSections runningConfig) (readSections renderedConfig)) := by
  have nodup (config : Str) : ((readSections config).map Prod.fst).Nodup :=
    Outline.nodup_keys_group _
  have isExact := isClean_iff_same (nodup runningConfig) (nodup renderedConfig)
    (scopeHasLines_sections _) (scopeHasLines_sections _)
  simp only [compare, reportOf]
  refine ⟨compareSections_own _ _, compareSections_others (nodup _) (nodup _), ?_⟩
  rw [← isExact]
  simp only [Findings.IsClean, Bool.and_eq_true, List.isEmpty_iff, and_assoc]

end Compare

end Nmas.Nsot.Coverage
