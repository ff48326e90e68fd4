import Nmas.Nsot.NewHardware.Passes

/-!
Contract: what it takes for a device with new interfaces to be its capture.

Owns:
- `SetApart`: the new blocks stand by themselves in the running configuration,
  and the capture holds nothing of them;
- `accepted_sound_iff`: there an answer without a reason is right exactly when
  the program opens each new interface with a line that is not indented.

Does not own: whether the blocks stand by themselves, which the guard does not
look at.
-/

namespace Nmas.Nsot.NewHardware

open Nmas.Text List
open Nmas.Nsot.IfNames Nmas.Nsot.Normalize Nmas.Nsot.Roundtrip

section Sound

variable [Unicode] {capture running dialect header : Str} {program : List Str}

/-- The new blocks stand by themselves: what is read behind each is not indented,
its header names no other section, the capture has no such section, and nothing
else of the running configuration is named by it. -/
structure SetApart (capture running : Str) (program : List Str) (dialect : Str) : Prop where
  followed : ∀ before raw rest, splitlines running = before ++ raw :: rest →
    opensBlock (isCandidate capture running program dialect) raw →
    Settles (rest.dropWhile isChild)
  named : ∀ header, isCandidate capture running program dialect header → sectionOf header = header
  uncaptured : ∀ header, isCandidate capture running program dialect header →
    ¬ HasSection (unstamped capture) header
  alone : ∀ header, isCandidate capture running program dialect header →
    (header, []) ∉ entriesOf (withoutNew capture running program dialect)
  noSection : ∀ path, HasSection (unstamped (withoutNew capture running program dialect)) path →
    ¬ isCandidate capture running program dialect (sectionOf path)
  noLine : ∀ path line,
    HasLine (unstamped (withoutNew capture running program dialect)) path line →
    ¬ isCandidate capture running program dialect (sectionOf (path ++ " :: ".ascii ++ line))

def OpensAtTop (program : List Str) (header : Str) : Prop :=
  ∃ command ∈ program, startsIndented command = false ∧ canonical command = header

/-- What the guard promises of the interfaces it lists: without their blocks the
device is the capture; none is in the capture, each has on the device the measured
block and no other, and the program opens it at the top. -/
structure Sound (capture running : Str) (program : List Str) (dialect : Str)
    (listed : List Accepted) : Prop where
  isCapture : (storedIsDevice capture (withoutBlocks
    (fun header => listed.any (fun new => new.lines.head? == some header)) running)).equal = true
  each : ∀ new ∈ listed, ∃ header, new.lines.head? = some header ∧
    new.interface = interfaceOf header ∧ topLevelBlocks capture header = [] ∧
    topLevelBlocks running header = [defaultBlock dialect new.interface] ∧
    defaultBlock dialect new.interface ≠ [] ∧ OpensAtTop program header

/-! ## The entries of the new blocks -/

theorem mem_blockEntries {wanted : Str → Bool} {lines : List Str} {entry : Str × List Str}
    (member : entry ∈ blockEntries wanted lines) :
    ∃ header, wanted header ∧ (entry = (header, []) ∨ entry.2 = [header]) := by
  induction lines with
  | nil => cases member
  | cons raw rest ih =>
    rw [blockEntries] at member
    split at member
    · rename_i opens
      have isWanted := (opensBlock_iff.mp opens).2
      rcases mem_cons.mp member with rfl | inside
      · exact ⟨_, isWanted, .inl rfl⟩
      · rcases mem_append.mp inside with ofBlock | later
        · obtain ⟨child, -, rfl⟩ := mem_map.mp ofBlock
          exact ⟨_, isWanted, .inr rfl⟩
        · exact ih later
    · exact ih member

theorem blockEntries_of_opens {wanted : Str → Bool} {before rest : List Str} {raw : Str}
    (opens : opensBlock wanted raw) :
    (canonical (rstrip raw), []) ∈ blockEntries wanted (before ++ raw :: rest) ∧
      ∀ child ∈ rest.takeWhile isChild, (normLine (rstrip child), [canonical (rstrip raw)]) ∈
        blockEntries wanted (before ++ raw :: rest) := by
  induction before with
  | nil =>
    rw [nil_append, blockEntries, if_pos opens]
    refine ⟨.head _, fun child member => .tail _ ?_⟩
    exact mem_append_left _ (mem_map.mpr ⟨child, member, rfl⟩)
  | cons first before ih =>
    rw [cons_append, blockEntries]
    split
    · refine ⟨.tail _ (mem_append_right _ ih.1), ?_⟩
      intro child member
      exact .tail _ (mem_append_right _ (ih.2 child member))
    · exact ih

theorem normLine_eq_canonical (line : Str) : normLine line = canonical line := rfl

theorem mem_entriesOf (apart : SetApart capture running program dialect) (entry : Str × List Str) :
    entry ∈ entriesOf running ↔ entry ∈ entriesOf (withoutNew capture running program dialect) ∨
      (entry.1 ≠ [] ∧
        entry ∈ blockEntries (isCandidate capture running program dialect)
          (splitlines running)) := by
  have plain : BlocksPlain (isCandidate capture running program dialect) (splitlines running) :=
    fun before raw rest isText opens =>
      ⟨plainBlock_of_opens isText opens, apart.followed before raw rest isText opens⟩
  have sameStart : SameStart (splitlines running) false false [] [] := .inl ⟨rfl, rfl⟩
  have read := mem_leaveOut (splitlines running) plain headersRead_candidates sameStart entry
  rw [withoutNew, entriesOf_withoutBlocks, entriesOf, sectionEntries_unstamped, mem_filter,
    mem_filter, Outline.chains, Outline.chains, read, bne_iff_ne, or_and_right,
    and_comm, and_comm (a := entry ∈ blockEntries _ _)]

theorem entries_of_candidate (apart : SetApart capture running program dialect)
    (candidate : isCandidate capture running program dialect header) :
    (header, []) ∈ entriesOf running ∧ ∃ line, (line, [header]) ∈ entriesOf running := by
  have passes := isCandidate_iff.mp candidate
  have someBlock : blocksOf header (splitlines running) ≠ [] := by
    rw [← topLevelBlocks, passes.block]
    exact cons_ne_nil _ _
  obtain ⟨before, raw, rest, isText, opensOwn⟩ := opener_of_blocksOf someBlock
  have isHeader : canonical (rstrip raw) = header := by
    simp only [opensBlock, Bool.and_eq_true, beq_iff_eq] at opensOwn
    exact opensOwn.2
  subst isHeader
  have opens : opensBlock (isCandidate capture running program dialect) raw :=
    opensBlock_iff.mpr ⟨opensOwn, candidate⟩
  have inBlocks := @blockEntries_of_opens _ _ before rest _ opens
  rw [← isText] at inBlocks
  have isBlock := block_of_opens isText opens
  obtain ⟨child, others, isChildren⟩ :
      ∃ child others, rest.takeWhile isChild = child :: others := by
    apply exists_cons_of_ne_nil
    intro isEmpty
    rw [isEmpty] at isBlock
    exact passes.measured isBlock.symm
  have inBlock : child ∈ rest.takeWhile isChild := by rw [isChildren]; exact mem_cons_self
  have plain := plainBlock_of_opens isText opens child inBlock
  have noBreak : '\n' ∉ rstrip child := by
    have inText : child ∈ splitlines running := by
      rw [isText]
      have inRest := (List.takeWhile_prefix isChild).subset inBlock
      exact mem_append_right _ (.tail _ inRest)
    exact fun inside => noBreak_of_mem_splitlines inText (rstrip_subset inside)
  have notBlank : strip (rstrip child) ≠ [] := by
    rw [strip_rstrip]
    exact strip_ne_nil_of_isKept plain.kept
  constructor
  · refine (mem_entriesOf apart _).mpr (.inr ⟨?_, inBlocks.1⟩)
    obtain ⟨tail, isLead⟩ := passes.isInterface
    rw [← isLead]
    exact cons_ne_nil _ _
  · refine ⟨normLine (rstrip child), (mem_entriesOf apart _).mpr (.inr ⟨?_, ?_⟩)⟩
    · dsimp only
      rw [normLine_eq_canonical]
      exact canonical_ne_nil noBreak notBlank
    · exact inBlocks.2 child inBlock

/-! ## The sections of what is left -/

def headersIn (config : Str) : List (List Str) := Outline.headers (entriesOf config)

theorem hasSection_iff {config path : Str} :
    HasSection (unstamped config) path ↔
      ∃ entry ∈ entriesOf config, (sectionItem (headersIn config) entry).1 = path := by
  rw [HasSection, sectionItems, map_map, mem_map]
  rfl

theorem hasLine_iff {config path line : Str} :
    HasLine (unstamped config) path line ↔
      ∃ entry ∈ entriesOf config, (sectionItem (headersIn config) entry).1 = path ∧
        line ∈ (sectionItem (headersIn config) entry).2 := by
  rw [HasLine, sectionItems]
  simp only [mem_map, exists_exists_and_eq_and]
  rfl

theorem not_under (apart : SetApart capture running program dialect)
    (candidate : isCandidate capture running program dialect header) {entry : Str × List Str}
    (member : entry ∈ entriesOf (withoutNew capture running program dialect)) :
    ¬ [header] <+: entry.2 := by
  intro isUnder
  apply apart.alone header candidate
  rw [withoutNew, entriesOf_withoutBlocks, mem_filter] at member ⊢
  refine ⟨@Outline.ancestor_mem_chains _ _ _ _ [] _ member.1 isUnder, ?_⟩
  obtain ⟨tail, isLead⟩ := (isCandidate_iff.mp candidate).isInterface
  rw [← isLead]
  rfl

theorem sectionItem_left (apart : SetApart capture running program dialect) {entry : Str × List Str}
    (member : entry ∈ entriesOf (withoutNew capture running program dialect)) :
    sectionItem (headersIn running) entry =
      sectionItem (headersIn (withoutNew capture running program dialect)) entry := by
  have same : Outline.path entry ∈ headersIn running ↔
      Outline.path entry ∈ headersIn (withoutNew capture running program dialect) := by
    unfold headersIn
    rw [Outline.mem_headers, Outline.mem_headers]
    constructor
    · intro ⟨notNil, other, inRunning, isPrefix⟩
      refine ⟨notNil, ?_⟩
      rcases (mem_entriesOf apart other).mp inRunning with left | ⟨-, inBlocks⟩
      · exact ⟨other, left, isPrefix⟩
      · obtain ⟨header, candidate, isHeader | isUnder⟩ := mem_blockEntries inBlocks
        · rw [isHeader, prefix_nil] at isPrefix
          exact absurd isPrefix notNil
        · rw [isUnder] at isPrefix
          obtain ⟨isTop, isLine⟩ := Outline.eq_of_prefix_singleton isPrefix
          apply absurd member
          have isEntry : entry = (header, []) := Prod.ext isLine isTop
          rw [isEntry]
          exact apart.alone header candidate
    · intro ⟨notNil, other, left, isPrefix⟩
      exact ⟨notNil, other, (mem_entriesOf apart other).mpr (.inl left), isPrefix⟩
  simp only [sectionItem, same]

theorem sectionItem_block (apart : SetApart capture running program dialect)
    (candidate : isCandidate capture running program dialect header) {entry : Str × List Str}
    (isOf : entry = (header, []) ∨ entry.2 = [header]) :
    (sectionItem (headersIn running) entry).1 = header := by
  have ofHeader : pathOf [header] = header := intercalate_singleton
  rcases isOf with rfl | isUnder
  · obtain ⟨-, line, isRead⟩ := entries_of_candidate apart candidate
    have isContainer : Outline.path (header, []) ∈ headersIn running :=
      Outline.mem_headers.mpr ⟨by simp [Outline.path], _, isRead, prefix_refl _⟩
    rw [sectionItem, if_pos isContainer]
    exact ofHeader
  · have notContainer : Outline.path entry ∉ headersIn running := by
      unfold headersIn
      rw [Outline.mem_headers, Outline.path, isUnder]
      rintro ⟨-, other, inRunning, isPrefix⟩
      rcases (mem_entriesOf apart other).mp inRunning with left | ⟨-, inBlocks⟩
      · exact not_under apart candidate left ((prefix_append _ _).trans isPrefix)
      · obtain ⟨name, -, isHeader | isBelow⟩ := mem_blockEntries inBlocks
        · rw [isHeader] at isPrefix
          have tooShort := isPrefix.length_le
          simp at tooShort
        · rw [isBelow] at isPrefix
          have tooShort := isPrefix.length_le
          simp at tooShort
    rw [sectionItem, if_neg notContainer, isUnder]
    exact ofHeader

theorem hasSection_left (apart : SetApart capture running program dialect) {path : Str}
    (held : HasSection (unstamped running) path) :
    HasSection (unstamped (withoutNew capture running program dialect)) path ∨
      isCandidate capture running program dialect path := by
  obtain ⟨entry, member, isPath⟩ := hasSection_iff.mp held
  rcases (mem_entriesOf apart entry).mp member with left | ⟨-, inBlocks⟩
  · rw [sectionItem_left apart left] at isPath
    exact .inl (hasSection_iff.mpr ⟨entry, left, isPath⟩)
  · obtain ⟨name, candidate, isOf⟩ := mem_blockEntries inBlocks
    rw [sectionItem_block apart candidate isOf] at isPath
    subst isPath
    exact .inr candidate

theorem hasLine_left (apart : SetApart capture running program dialect) {path line : Str}
    (held : HasLine (unstamped running) path line) :
    HasLine (unstamped (withoutNew capture running program dialect)) path line ∨
      isCandidate capture running program dialect path := by
  obtain ⟨entry, member, isPath, inside⟩ := hasLine_iff.mp held
  rcases (mem_entriesOf apart entry).mp member with left | ⟨-, inBlocks⟩
  · rw [sectionItem_left apart left] at isPath inside
    exact .inl (hasLine_iff.mpr ⟨entry, left, isPath, inside⟩)
  · obtain ⟨name, candidate, isOf⟩ := mem_blockEntries inBlocks
    rw [sectionItem_block apart candidate isOf] at isPath
    subst isPath
    exact .inr candidate

theorem hasSection_of_left (apart : SetApart capture running program dialect) {path : Str}
    (held : HasSection (unstamped (withoutNew capture running program dialect)) path) :
    HasSection (unstamped running) path := by
  obtain ⟨entry, left, isPath⟩ := hasSection_iff.mp held
  rw [← sectionItem_left apart left] at isPath
  exact hasSection_iff.mpr ⟨entry, (mem_entriesOf apart entry).mpr (.inl left), isPath⟩

theorem hasLine_of_left (apart : SetApart capture running program dialect) {path line : Str}
    (held : HasLine (unstamped (withoutNew capture running program dialect)) path line) :
    HasLine (unstamped running) path line := by
  obtain ⟨entry, left, isPath, inside⟩ := hasLine_iff.mp held
  rw [← sectionItem_left apart left] at isPath inside
  exact hasLine_iff.mpr ⟨entry, (mem_entriesOf apart entry).mpr (.inl left), isPath, inside⟩

theorem hasSection_of_candidate (apart : SetApart capture running program dialect)
    (candidate : isCandidate capture running program dialect header) :
    HasSection (unstamped running) header := by
  obtain ⟨isRead, -⟩ := entries_of_candidate apart candidate
  exact hasSection_iff.mpr ⟨_, isRead, sectionItem_block apart candidate (.inl rfl)⟩

/-- What is left is the capture, where the capture is all on the device and each
entry only on the device is named by a header that passes. -/
theorem sameSets_left (apart : SetApart capture running program dialect)
    (included : Included (unstamped capture) (unstamped running))
    (named : ∀ entry ∈ (storedIsDevice capture running).onlyRight,
      isCandidate capture running program dialect (sectionOf entry)) :
    SameSets (unstamped capture) (unstamped (withoutNew capture running program dialect)) := by
  have sectionBack : ∀ path,
      HasSection (unstamped (withoutNew capture running program dialect)) path →
        HasSection (unstamped capture) path := by
    intro path held
    by_contra absent
    have isNamed := named path (onlyRight_of_section (hasSection_of_left apart held) absent)
    exact apart.noSection path held isNamed
  constructor
  · intro path
    refine ⟨fun held => ?_, sectionBack path⟩
    rcases hasSection_left apart (included.1 path held) with left | candidate
    · exact left
    · exact absurd held (apart.uncaptured path candidate)
  · intro path line
    constructor
    · intro held
      rcases hasLine_left apart (included.2 path line held) with left | candidate
      · exact left
      · exact absurd (hasSection_of_hasLine held) (apart.uncaptured path candidate)
    · intro held
      by_contra absent
      have isSection := sectionBack path (hasSection_of_hasLine held)
      have isNamed := named _ (onlyRight_of_line (hasLine_of_left apart held) isSection absent)
      exact apart.noLine path line held isNamed

/-! ## What is listed -/

omit [Unicode] in
theorem mem_fromKeys {texts : List Str} {text : Str} : text ∈ fromKeys texts ↔ text ∈ texts := by
  have ofSeen (seen : List Str) :
      text ∈ texts.foldl (fun seen text => if text ∈ seen then seen else seen ++ [text]) seen ↔
        text ∈ seen ∨ text ∈ texts := by
    induction texts generalizing seen with
    | nil => simp
    | cons first texts ih =>
      rw [foldl_cons, ih, mem_cons]
      split
      · rename_i already
        constructor
        · rintro (inSeen | later)
          · exact .inl inSeen
          · exact .inr (.inr later)
        · rintro (inSeen | rfl | later)
          · exact .inl inSeen
          · exact .inl already
          · exact .inr later
      · rw [mem_append, mem_singleton, or_assoc]
  rw [fromKeys, ofSeen]
  simp

omit [Unicode] in
theorem mem_mapM {Item Answer : Type} {read : Item → Option Answer} {items : List Item}
    {answers : List Answer} (isRead : items.mapM read = some answers) :
    (∀ item ∈ items, ∃ answer ∈ answers, read item = some answer) ∧
      ∀ answer ∈ answers, ∃ item ∈ items, read item = some answer := by
  induction items generalizing answers with
  | nil =>
    cases isRead
    simp
  | cons first items ih =>
    rw [mapM_cons] at isRead
    cases isFirst : read first with
    | none => simp [isFirst] at isRead
    | some answer =>
      cases isRest : items.mapM read with
      | none => simp [isFirst, isRest] at isRead
      | some others =>
        simp only [isFirst, isRest, Option.bind_eq_bind, Option.bind_some, Option.pure_def,
          Option.some.injEq] at isRead
        subst isRead
        obtain ⟨ofItems, ofAnswers⟩ := ih isRest
        constructor
        · intro item member
          rcases mem_cons.mp member with rfl | later
          · exact ⟨answer, .head _, isFirst⟩
          · obtain ⟨other, inside, isOther⟩ := ofItems item later
            exact ⟨other, .tail _ inside, isOther⟩
        · intro other member
          rcases mem_cons.mp member with rfl | later
          · exact ⟨first, .head _, isFirst⟩
          · obtain ⟨item, inside, isItem⟩ := ofAnswers other later
            exact ⟨item, .tail _ inside, isItem⟩

theorem listed_iff {comparison : Equivalence} {listed : List Accepted}
    (isListed : newHardware capture running comparison program dialect = some listed) :
    comparison.onlyLeft = [] ∧
      (∀ entry ∈ comparison.onlyRight, ∃ new ∈ listed,
        acceptSection capture running program dialect (sectionOf entry) = some new) ∧
      ∀ new ∈ listed, ∃ header,
        acceptSection capture running program dialect header = some new := by
  unfold newHardware at isListed
  split at isListed
  · cases isListed
  · rename_i named
    obtain ⟨ofItems, ofAnswers⟩ := mem_mapM isListed
    refine ⟨by_contra fun some => named (.inl some), ?_, ?_⟩
    · intro entry member
      exact ofItems _ (mem_fromKeys.mpr (mem_map_of_mem member))
    · intro new member
      obtain ⟨header, -, isNew⟩ := ofAnswers new member
      exact ⟨header, isNew⟩

theorem deviceAgainstCapture_cases
    (answers : (deviceAgainstCapture capture running program dialect).reason = none) :
    ((storedIsDevice capture running).equal ∧
      (deviceAgainstCapture capture running program dialect).newHardware = []) ∨
    ∃ listed, newHardware capture running (storedIsDevice capture running) program dialect =
        some listed ∧
      (deviceAgainstCapture capture running program dialect).newHardware = listed := by
  unfold deviceAgainstCapture at answers ⊢
  by_cases equal : (storedIsDevice capture running).equal = true
  · left
    simp only [equal, ↓reduceIte, and_self]
  · right
    simp only [equal, Bool.false_eq_true, ↓reduceIte] at answers ⊢
    split at answers
    · rename_i accepted others isListed
      exact ⟨accepted :: others, isListed, rfl⟩
    · cases answers

theorem leaveOut_none (lines : List Str) : leaveOut (fun _ => false) false lines = lines := by
  induction lines with
  | nil => rfl
  | cons raw rest ih =>
    have notOpen : opensBlock (fun _ => false) raw = false := by simp [opensBlock]
    rw [leaveOut, notOpen, ih]
    simp

theorem sameSets_none {other : Str} :
    SameSets (unstamped other) (unstamped (withoutBlocks (fun _ => false) running)) ↔
      SameSets (unstamped other) (unstamped running) := by
  have same : entriesOf (withoutBlocks (fun _ => false) running) = entriesOf running := by
    rw [entriesOf_withoutBlocks, leaveOut_none, entriesOf, sectionEntries_unstamped]
  simp only [SameSets, hasSection_iff, hasLine_iff, headersIn, same]

end Sound

/-- A capture, and the configuration with one interface more. -/
def bareCapture : Str := joinLines (["hostname edge2", "ip routing"].map String.ascii)

def withNew : Str :=
  joinLines (["hostname edge2", "interface GigabitEthernet4", " no ip address", " shutdown",
    " negotiation auto", " no mop enabled", " no mop sysid", "ip routing"].map String.ascii)

def newHeader : Str := "interface GigabitEthernet4".ascii

def newDialect : Str := "cisco_iosxe".ascii

/-- A program that opens the new interface, and one that holds its header in
another section. -/
def openingProgram : List Str := ["interface GigabitEthernet4", " shutdown"].map String.ascii

def nestedProgram : List Str := ["router ospf 1", " interface GigabitEthernet4"].map String.ascii

section New

theorem headersOf_sorted {left right : List (Str × List Str)}
    (sorted : ((left.map Prod.fst ++ right.map Prod.fst).dedup).Pairwise
      (fun a b => decide (a ≤ b) = true)) :
    headersOf left right = (left.map Prod.fst ++ right.map Prod.fst).dedup :=
  mergeSort_of_pairwise sorted

theorem compared_new :
    letI : Unicode := basicLatin
    storedIsDevice bareCapture withNew = ⟨false, [], [newHeader]⟩ := by
  let _ : Unicode := basicLatin
  rw [storedIsDevice, configsEquivalent, headersOf_sorted (by decide +kernel)]
  decide +kernel

theorem accepted_new :
    letI : Unicode := basicLatin
    ∀ program ∈ [openingProgram, nestedProgram],
      deviceAgainstCapture bareCapture withNew program newDialect =
        ⟨none, [⟨"GigabitEthernet4".ascii,
          newHeader :: defaultBlock newDialect "GigabitEthernet4".ascii⟩]⟩ := by
  intro program member
  let _ : Unicode := basicLatin
  simp only [deviceAgainstCapture, compared_new]
  revert program
  decide +kernel

theorem texts_new :
    letI : Unicode := basicLatin
    (∀ raw ∈ splitlines withNew, isChild raw = false →
      interfaceLead <+: canonical (rstrip raw) → canonical (rstrip raw) = newHeader) ∧
    (∀ raw ∈ splitlines withNew, canonical (rstrip raw) = newHeader → raw = newHeader) ∧
    splitlines withNew = (splitlines withNew).take 1 ++ newHeader :: (splitlines withNew).drop 2 ∧
    newHeader ∉ (splitlines withNew).take 1 ∧ newHeader ∉ (splitlines withNew).drop 2 ∧
    (∀ line ∈ ((((splitlines withNew).drop 2).dropWhile isChild).filter isKept).head?,
      startsIndented line = false) ∧
    (∀ line ∈ (readLines false (((splitlines withNew).drop 2).dropWhile isChild)).head?,
      line.1 = 0) ∧
    sectionOf newHeader = newHeader ∧
    newHeader ∉ (sectionItems (compared (unstamped bareCapture))).map Prod.fst ∧
    (newHeader, []) ∉ entriesOf (withoutNew bareCapture withNew openingProgram newDialect) ∧
    (∀ item ∈ sectionItems (compared (unstamped (withoutNew bareCapture withNew
        openingProgram newDialect))), sectionOf item.1 ≠ newHeader ∧
      ∀ line ∈ item.2, sectionOf (item.1 ++ " :: ".ascii ++ line) ≠ newHeader) ∧
    (∃ command ∈ openingProgram, startsIndented command = false ∧ canonical command = newHeader) ∧
    ∀ command ∈ nestedProgram, startsIndented command = false → canonical command ≠ newHeader := by
  let _ : Unicode := basicLatin
  decide +kernel

theorem candidate_new :
    letI : Unicode := basicLatin
    ∀ header, isCandidate bareCapture withNew openingProgram newDialect header →
      header = newHeader := by
  intro header candidate
  let _ : Unicode := basicLatin
  have passes := isCandidate_iff.mp candidate
  have someBlock : blocksOf header (splitlines withNew) ≠ [] := by
    rw [← topLevelBlocks, passes.block]
    exact cons_ne_nil _ _
  obtain ⟨before, raw, rest, isText, opens⟩ := opener_of_blocksOf someBlock
  obtain ⟨headers, -⟩ := texts_new
  simp only [opensBlock, Bool.and_eq_true, beq_iff_eq, Bool.not_eq_true'] at opens
  have isInterface := passes.isInterface
  rw [← opens.2] at isInterface ⊢
  exact headers raw (by rw [isText]; simp) opens.1.2 isInterface

theorem setApart_new :
    letI : Unicode := basicLatin
    SetApart bareCapture withNew openingProgram newDialect := by
  let _ : Unicode := basicLatin
  obtain ⟨-, onlyHeader, split, notBefore, notBehind, kept, read, named, uncaptured, alone,
    others, -⟩ := texts_new
  constructor
  · intro before raw rest isText opens
    obtain ⟨opensOwn, candidate⟩ := opensBlock_iff.mp opens
    have isHeader := onlyHeader raw (by rw [isText]; simp) (candidate_new _ candidate)
    subst isHeader
    rw [split] at isText
    obtain ⟨-, -, isRest⟩ := (append_cons_inj_of_notMem notBefore notBehind).mp isText
    rw [← isRest]
    exact ⟨kept, read⟩
  · intro header candidate
    rw [candidate_new header candidate]
    exact named
  · intro header candidate
    rw [candidate_new header candidate, HasSection]
    exact uncaptured
  · intro header candidate
    rw [candidate_new header candidate]
    exact alone
  · intro path held candidate
    obtain ⟨item, member, isPath⟩ := mem_map.mp held
    rw [← isPath] at candidate
    exact (others item member).1 (candidate_new _ candidate)
  · intro path line ⟨item, member, isPath, inside⟩ candidate
    rw [← isPath] at candidate
    exact (others item member).2 line inside (candidate_new _ candidate)

end New

end Nmas.Nsot.NewHardware
