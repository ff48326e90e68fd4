import Nmas.Nsot.NewHardware.Blocks

/-!
Contract: the headers the guard lets pass, and how the comparison reads the
blocks they open.

Owns:
- the headers that pass, by what they are in the capture, the running
  configuration and the program (`isCandidate`, `Passes`);
- that such a header is read at the top of the configuration, and each line of
  its block under it (`headersRead_candidates`, `plainBlock_of_opens`).

Does not own: what is read behind such a block.
-/

namespace Nmas.Nsot.NewHardware

open Nmas.Text List
open Nmas.Nsot.IfNames Nmas.Nsot.Normalize Nmas.Nsot.Roundtrip

/-! ## A header is read as it opens its block -/

theorem head_rstrip {text : Str} {c : Char} {rest : Str} (isText : text = c :: rest)
    (visible : isSpace c = false) : (rstrip text).head? = some c := by
  obtain ⟨tail, isWhole⟩ := rdropWhile_prefix isSpace text
  change rstrip text ++ tail = text at isWhole
  cases isStripped : rstrip text with
  | nil =>
    have allSpace := rdropWhile_eq_nil_iff.mp isStripped c (by rw [isText]; simp)
    rw [visible] at allSpace
    cases allSpace
  | cons d others =>
    rw [isStripped, isText, cons_append, List.cons.injEq] at isWhole
    rw [isWhole.1]
    rfl

theorem lstrip_visible {c : Char} {rest : Str} (visible : isSpace c = false) :
    lstrip (c :: rest) = c :: rest :=
  dropWhile_cons_of_neg (by simp [visible])

theorem head_strip {text : Str} {c : Char} {rest : Str} (isText : text = c :: rest)
    (visible : isSpace c = false) : (strip text).head? = some c := by
  rw [isText, strip, lstrip_visible visible]
  exact head_rstrip rfl visible

theorem noBreak_strip {text : Str} (noBreak : '\n' ∉ text) : '\n' ∉ strip text := by
  intro inside
  have inLeft := rstrip_subset inside
  exact noBreak ((dropWhile_suffix isSpace).subset inLeft)

section Header

variable [Unicode]

theorem canonicaliseLine_strip {line : Str} (noBreak : '\n' ∉ line) (notBlank : strip line ≠ []) :
    ∃ c rest, canonicaliseLine (strip line) = c :: rest ∧ isSpace c = false ∧
      canonical line = strip (c :: collapseFrom false rest) := by
  have noIndent := takeWhile_canonicaliseLine (noBreak_strip noBreak)
  have noLastBreak : (strip line).getLast? ≠ some '\n' := fun isLast =>
    noBreak_strip noBreak (mem_of_getLast? isLast)
  have sameLast := canonicaliseLine_getLast? noLastBreak
  have visibleLine := strip_head line
  obtain ⟨d, others, isStripped⟩ := exists_cons_of_ne_nil notBlank
  have notSpace : ¬ isSpace d := by
    rw [isStripped] at visibleLine
    simpa using visibleLine
  cases isLine : canonicaliseLine (strip line) with
  | nil =>
    rw [isLine, isStripped] at sameLast
    exact absurd (List.getLast?_eq_none_iff.mp sameLast.symm) (cons_ne_nil _ _)
  | cons c rest =>
    have visible : isSpace c = false := by
      rw [isLine, isStripped, takeWhile_cons_of_neg notSpace] at noIndent
      by_contra isBlank
      rw [takeWhile_cons_of_pos (by simpa using isBlank)] at noIndent
      cases noIndent
    refine ⟨c, rest, rfl, visible, ?_⟩
    rw [canonical, isLine, collapseFrom, visible]
    rfl

theorem canonical_ne_nil {line : Str} (noBreak : '\n' ∉ line) (notBlank : strip line ≠ []) :
    canonical line ≠ [] := by
  obtain ⟨c, rest, -, visible, isCanonical⟩ := canonicaliseLine_strip noBreak notBlank
  intro isEmpty
  have isHead : (strip (c :: collapseFrom false rest)).head? = some c := head_strip rfl visible
  rw [← isCanonical, isEmpty] at isHead
  cases isHead

theorem head_of_canonical {line : Str} (noBreak : '\n' ∉ line) {c : Char}
    (isHead : (canonical line).head? = some c) (notUpper : c.isUpper = false) :
    (strip line).head? = some c := by
  by_cases blank : strip line = []
  · rw [canonical, blank] at isHead
    cases isHead
  · obtain ⟨d, rest, isLine, visible, isCanonical⟩ := canonicaliseLine_strip noBreak blank
    rw [isCanonical, head_strip rfl visible] at isHead
    apply canonicaliseLine_head (noBreak_strip noBreak) _ notUpper
    rw [isLine]
    exact isHead

omit [Unicode] in
theorem isKept_of_head {line : Str} (isHead : line.head? = some 'i')
    (stripHead : (strip line).head? = some 'i') : isKept line := by
  have notPrefix : ∀ lead ∈ diffPrefixes, lead.head?.any (· ≠ 'i') := by decide
  have plain : startsWithAny diffPrefixes (strip line) = false := by
    rw [startsWithAny, any_eq_false]
    intro lead member isPrefix
    have starts := notPrefix lead member
    rw [List.isPrefixOf_iff_prefix] at isPrefix
    obtain ⟨tail, isStrip⟩ := isPrefix
    cases lead with
    | nil => cases starts
    | cons c rest =>
      rw [← isStrip, cons_append, List.head?_cons, Option.some.injEq] at stripHead
      simp [stripHead] at starts
  have notEmpty : strip line ≠ [] := by
    intro isEmpty
    rw [isEmpty] at stripHead
    cases stripHead
  have notBang : strip line ≠ ['!'] := by
    intro isBang
    rw [isBang] at stripHead
    cases stripHead
  simp [isKept, isHead, notEmpty, notBang, isVolatile, plain]

theorem isSelfSigned_of_head {stripped : Str} (isHead : stripped.head? = some 'i') :
    isSelfSigned stripped = false := by
  have noLead (lead : Str) (starts : lead.head? = some 'c') : afterPrefix lead stripped = none := by
    rw [afterPrefix, if_neg]
    intro isPrefix
    rw [List.isPrefixOf_iff_prefix] at isPrefix
    obtain ⟨tail, rfl⟩ := isPrefix
    rw [List.head?_append, starts] at isHead
    cases isHead
  rw [isSelfSigned, any_eq_false]
  intro lead member
  have starts : lead.ascii.head? = some 'c' := by
    have both : ∀ lead ∈ ["crypto pki trustpoint TP-self-signed-",
        "crypto pki certificate chain TP-self-signed-"], lead.ascii.head? = some 'c' := by
      decide
    exact both lead member
  rw [noLead _ starts]
  simp

theorem readLine_header {raw : Str} (noBreak : '\n' ∉ raw) {wanted : Str → Bool}
    (opens : opensBlock wanted raw) (isInterface : (canonical (rstrip raw)).head? = some 'i')
    (skipping : Bool) : readLine skipping raw = ([(0, canonical (rstrip raw))], false) := by
  have rawBreak : '\n' ∉ rstrip raw := fun inside => noBreak (rstrip_subset inside)
  have stripHead : (strip raw).head? = some 'i' := by
    have found := head_of_canonical rawBreak isInterface (by decide)
    rwa [strip_rstrip] at found
  simp only [opensBlock, isChild, startsIndented, Bool.and_eq_true, Bool.not_eq_true', bne_iff_ne,
    ne_eq] at opens
  obtain ⟨⟨notEmpty, notIndented⟩, -⟩ := opens
  obtain ⟨c, rest, isStripped⟩ := exists_cons_of_ne_nil notEmpty
  have visible : isSpace c = false := by simpa [isStripped] using notIndented
  have isC : c = 'i' := by
    have found := head_strip isStripped visible
    rw [strip_rstrip, stripHead, Option.some.injEq] at found
    exact found.symm
  subst isC
  have isHead : raw.head? = some 'i' := by
    obtain ⟨tail, isWhole⟩ := rdropWhile_prefix isSpace raw
    change rstrip raw ++ tail = raw at isWhole
    rw [← isWhole, isStripped]
    rfl
  have indented : startsIndented raw = false := by
    rw [startsIndented, isHead]
    rfl
  have kept := isKept_of_head isHead stripHead
  have shown : isSectionSeparator (rstrip raw) = false := by
    rw [isSectionSeparator, strip_rstrip, contains_eq_mem, decide_eq_false_iff_not]
    intro member
    have notHead : ∀ word ∈ [[], "!".ascii, "end".ascii], word.head? ≠ some 'i' := by decide
    exact notHead _ member stripHead
  have top : indentOf (rstrip raw) = 0 := by
    rw [isStripped, indentOf, lstrip_visible visible, Nat.sub_self]
  have notBlank : strip raw ≠ [] := strip_ne_nil_of_isKept kept
  simp [readLine, kept, isSelfSigned_of_head stripHead, indented, shown, top, notBlank]
  rfl

end Header

/-! ## The measured lines -/

section Measured

variable [Unicode]

def measuredLines : List Str := byDialect.flatMap (fun row => row.2.flatMap Prod.snd)

omit [Unicode] in
theorem mem_of_lookup {table : List (Str × List α)} {key : Str} {values : List α}
    (found : Outline.lookup key table = some values) : ∃ row ∈ table, row.2 = values := by
  rw [Outline.lookup, Option.map_eq_some_iff] at found
  obtain ⟨row, isRow, isValues⟩ := found
  exact ⟨row, mem_of_find?_eq_some isRow, isValues⟩

theorem measuredLines_of_default {dialect interface line : Str}
    (member : line ∈ defaultBlock dialect interface) : line ∈ measuredLines := by
  unfold defaultBlock at member
  cases isRows : Outline.lookup (strip dialect) byDialect with
  | none => simp [isRows] at member
  | some rows =>
    cases isLines : Outline.lookup (interfaceType interface) rows with
    | none => simp [isRows, isLines] at member
    | some lines =>
      simp only [isRows, Option.bind_some, isLines, Option.getD_some] at member
      obtain ⟨ofDialect, inTable, rfl⟩ := mem_of_lookup isRows
      obtain ⟨row, inRows, rfl⟩ := mem_of_lookup isLines
      have inDialect := mem_flatMap.mpr ⟨row, inRows, member⟩
      exact mem_flatMap.mpr ⟨ofDialect, inTable, inDialect⟩

def IsMeasured (line : Str) : Prop :=
  line.head? = some ' ' ∧ strip line ≠ [] ∧ strip line ≠ ['!'] ∧
    isSectionSeparator line = false ∧ indentOf line = 1

omit [Unicode] in
theorem isMeasured_of_mem : ∀ line ∈ measuredLines, IsMeasured line := by
  unfold IsMeasured
  decide +kernel

omit [Unicode] in
theorem plainChild_of_measured {raw : Str} (measured : IsMeasured (rstrip raw)) :
    PlainChild raw := by
  obtain ⟨isHead, notBlank, notBang, shown, deep⟩ := measured
  have rawHead : raw.head? = some ' ' := by
    obtain ⟨tail, isWhole⟩ := rdropWhile_prefix isSpace raw
    change rstrip raw ++ tail = raw at isWhole
    rw [← isWhole, List.head?_append, isHead]
    rfl
  rw [strip_rstrip] at notBlank notBang
  exact
    { child := by simp [isChild, startsIndented, isHead, isSpace]
      kept := by simp [isKept, rawHead, notBlank, notBang, isVolatile]
      shown := shown
      deep := deep }

end Measured

/-! ## The headers that pass -/

section Candidates

variable [Unicode] {capture running dialect header : Str} {program : List Str}

/-- The header of an interface that the guard lets pass: not in the capture, its
one block on the device the measured one, and in the program. -/
def isCandidate (capture running : Str) (program : List Str) (dialect header : Str) : Bool :=
  (acceptSection capture running program dialect header).isSome

structure Passes (capture running : Str) (program : List Str) (dialect header : Str) : Prop where
  isInterface : interfaceLead <+: header
  uncaptured : topLevelBlocks capture header = []
  block : topLevelBlocks running header = [defaultBlock dialect (interfaceOf header)]
  measured : defaultBlock dialect (interfaceOf header) ≠ []
  inProgram : header ∈ configured program

theorem rstrip_of_blocksOf {lines : List Str} {block : List Str}
    (member : block ∈ blocksOf header lines) : block.map rstrip = block := by
  induction lines with
  | nil => cases member
  | cons raw rest ih =>
    rw [blocksOf] at member
    split at member
    · rcases mem_cons.mp member with rfl | later
      · rw [map_map]
        apply map_congr_left
        intro line _
        exact rstrip_rstrip
      · exact ih later
    · exact ih member

theorem acceptSection_eq_some {accepted : Accepted} :
    acceptSection capture running program dialect header = some accepted ↔
      Passes capture running program dialect header ∧
        accepted = ⟨interfaceOf header, header :: defaultBlock dialect (interfaceOf header)⟩ := by
  unfold acceptSection
  constructor
  · intro isSome
    split at isSome
    · cases isSome
    · rename_i isInterface
      split at isSome
      · cases isSome
      · rename_i uncaptured
        split at isSome
        · rename_i block isBlock
          have member : block ∈ blocksOf header (splitlines running) := by
            rw [← topLevelBlocks, isBlock]
            exact mem_singleton.mpr rfl
          have rstripped := rstrip_of_blocksOf member
          split at isSome
          · cases isSome
          · rename_i isDefault
            simp only [unconfiguredInterfaceDefault, rstripped, Bool.not_eq_true',
              Bool.not_eq_false, Bool.and_eq_true, bne_iff_ne, ne_eq, beq_iff_eq] at isDefault
            obtain ⟨measured, rfl⟩ := isDefault
            split at isSome
            · cases isSome
            · rename_i inProgram
              refine ⟨⟨?_, ?_, isBlock, measured, ?_⟩, (Option.some.inj isSome).symm⟩
              · simpa using isInterface
              · simpa using uncaptured
              · simpa using inProgram
        · cases isSome
  · rintro ⟨⟨isInterface, uncaptured, isBlock, measured, inProgram⟩, rfl⟩
    have member : defaultBlock dialect (interfaceOf header) ∈
        blocksOf header (splitlines running) := by
      rw [← topLevelBlocks, isBlock]
      exact mem_singleton.mpr rfl
    have rstripped := rstrip_of_blocksOf member
    have starts : interfaceLead.isPrefixOf header := isPrefixOf_iff_prefix.mpr isInterface
    simp [starts, uncaptured, isBlock, unconfiguredInterfaceDefault, rstripped, measured, inProgram]

theorem isCandidate_iff :
    isCandidate capture running program dialect header ↔
      Passes capture running program dialect header := by
  rw [isCandidate, Option.isSome_iff_exists]
  constructor
  · intro ⟨accepted, isAccepted⟩
    exact (acceptSection_eq_some.mp isAccepted).1
  · intro passes
    exact ⟨_, acceptSection_eq_some.mpr ⟨passes, rfl⟩⟩

theorem mem_blocksOf {before rest : List Str} {raw : Str} (opens : opensBlock (· == header) raw) :
    (rest.takeWhile isChild).map rstrip ∈ blocksOf header (before ++ raw :: rest) := by
  induction before with
  | nil =>
    rw [nil_append, blocksOf, if_pos opens]
    exact .head _
  | cons first before ih =>
    rw [cons_append, blocksOf]
    split
    · exact .tail _ ih
    · exact ih

theorem opener_of_blocksOf {lines : List Str} (some : blocksOf header lines ≠ []) :
    ∃ before raw rest, lines = before ++ raw :: rest ∧ opensBlock (· == header) raw := by
  induction lines with
  | nil => exact absurd rfl some
  | cons raw rest ih =>
    rw [blocksOf] at some
    split at some
    · rename_i opens
      exact ⟨[], raw, rest, rfl, opens⟩
    · obtain ⟨before, later, others, rfl, opens⟩ := ih some
      exact ⟨raw :: before, later, others, rfl, opens⟩

theorem opensBlock_iff {wanted : Str → Bool} {raw : Str} :
    opensBlock wanted raw ↔
      opensBlock (· == canonical (rstrip raw)) raw ∧ wanted (canonical (rstrip raw)) := by
  simp [opensBlock]

theorem block_of_opens {before rest : List Str} {raw : Str}
    (isText : splitlines running = before ++ raw :: rest)
    (opens : opensBlock (isCandidate capture running program dialect) raw) :
    (rest.takeWhile isChild).map rstrip =
      defaultBlock dialect (interfaceOf (canonical (rstrip raw))) := by
  obtain ⟨opensOwn, candidate⟩ := opensBlock_iff.mp opens
  have passes := isCandidate_iff.mp candidate
  have member : (rest.takeWhile isChild).map rstrip ∈ blocksOf _ (before ++ raw :: rest) :=
    mem_blocksOf opensOwn
  rw [← isText, ← topLevelBlocks, passes.block, mem_singleton] at member
  exact member

theorem plainBlock_of_opens {before rest : List Str} {raw : Str}
    (isText : splitlines running = before ++ raw :: rest)
    (opens : opensBlock (isCandidate capture running program dialect) raw) :
    ∀ child ∈ rest.takeWhile isChild, PlainChild child := by
  intro child member
  apply plainChild_of_measured
  apply isMeasured_of_mem
  have inDefault : rstrip child ∈ defaultBlock dialect (interfaceOf (canonical (rstrip raw))) := by
    rw [← block_of_opens isText opens]
    exact mem_map_of_mem member
  exact measuredLines_of_default inDefault

theorem headersRead_candidates :
    HeadersRead (isCandidate capture running program dialect) (splitlines running) := by
  intro raw member opens skipping
  have passes := isCandidate_iff.mp (opensBlock_iff.mp opens).2
  apply readLine_header (noBreak_of_mem_splitlines member) opens
  obtain ⟨tail, isHeader⟩ := passes.isInterface
  rw [← isHeader]
  rfl

/-! ## What the blocks hold -/

/-- The entries of a configuration, as the comparison reads them. -/
def entriesOf (config : Str) : List (Str × List Str) := sectionEntries (compared (unstamped config))

def withoutNew (capture running : Str) (program : List Str) (dialect : Str) : Str :=
  withoutBlocks (isCandidate capture running program dialect) running

theorem leaveOut_subset (wanted : Str → Bool) (inside : Bool) (lines : List Str) :
    leaveOut wanted inside lines ⊆ lines := by
  induction lines generalizing inside with
  | nil => exact .refl _
  | cons raw rest ih =>
    rw [leaveOut]
    split
    · split
      · exact subset_cons_of_subset _ (ih true)
      · exact cons_subset_cons _ (ih false)
    · split
      · exact subset_cons_of_subset _ (ih true)
      · exact cons_subset_cons _ (ih false)

theorem entriesOf_withoutBlocks (wanted : Str → Bool) (config : Str) :
    entriesOf (withoutBlocks wanted config) =
      (Outline.chains (readLines false (leaveOut wanted false (splitlines config)))).filter
        (fun entry => entry.1 != []) := by
  rw [entriesOf, sectionEntries_unstamped, withoutBlocks, readLines_joinLines]
  intro line member
  exact lineBreak_of_mem_splitlines (leaveOut_subset _ _ _ member)

end Candidates

end Nmas.Nsot.NewHardware
