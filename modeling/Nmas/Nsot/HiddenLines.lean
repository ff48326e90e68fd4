import Nmas.Nsot.Banners
import Nmas.Nsot.PlatformDefaults
import Nmas.Nsot.Sections

/-!
Contract: the lines `platform_defaults.strip` takes out, beside the lines `hidden` names under the
chains of `sections.chains` and of `deploy._section_chains`.

`strip` keeps a stack of its own. It counts leading spaces only, and `!` and `end` are lines to it
like any other; the section readings count all white space and skip the two.
-/

namespace Nmas.Nsot.PlatformDefaults

open Nmas.Text List
open Nmas.Outline
open Nmas.Nsot.Normalize
open Nmas.Nsot.IfNames (canonicaliseLine)

/-! ### Parents, read in two ways -/

def leadingSpaces (raw : Str) : Nat := (raw.takeWhile (· = ' ')).length

/-- The nearest preceding lines by leading spaces, innermost first, separators among them. -/
def spaceParents (before : List Str) (raw : Str) : List Str :=
  nearest leadingSpaces (leadingSpaces raw) (before.filter fun line => strip line ≠ []).reverse

def sectionDepth (raw : Str) : Nat := indentOf (rstrip raw)

/-- The nearest preceding lines by leading white space, innermost first, without separators. -/
def sectionParents (before : List Str) (raw : Str) : List Str :=
  nearest sectionDepth (sectionDepth raw)
    (before.filter fun line => !isSectionSeparator line).reverse

variable [Unicode]

/-- Does `hidden` name a line under its parents by spaces? -/
def hiddenBySpaces (before : List Str) (raw : Str) : Bool :=
  (hidden ((spaceParents before raw).map strip).reverse raw).isSome

/-- Does `hidden` name a line under its parents by sections? -/
def hiddenBySections (norm : Str → Str) (before : List Str) (raw : Str) : Bool :=
  !isSectionSeparator raw &&
    (hidden ((sectionParents before raw).map fun line => norm (rstrip line)).reverse
      (norm (rstrip raw))).isSome

/-- `_section_chains` of the lines of a text, up to any of them. -/
def deployChains (serial : Str) (lines : List Str) : List (Str × List Str) :=
  sectionsOf canonicaliseLine (stripForRoundtripFrom serial {} lines)

/-- `strip` takes out the line that comes behind `before`. -/
def Removed (before : List Str) (raw : Str) : Prop :=
  stripFrom [] (before ++ [raw]) = stripFrom [] before

/-- A section reading has an entry for the line that comes behind `before`, and `hidden` names
it there. -/
def Named (read : List Str → List (Str × List Str)) (before : List Str) (raw : Str) : Prop :=
  ∃ entry, read (before ++ [raw]) = read before ++ [entry] ∧ (hidden entry.2 entry.1).isSome = true

/-- `strip` takes out exactly the lines `hidden` names in a section reading. -/
def Exact (read : List Str → List (Str × List Str)) (lines : List Str) : Prop :=
  ∀ before raw after, lines = before ++ raw :: after → (Removed before raw ↔ Named read before raw)

section Readings

variable {serial : Str} {norm : Str → Str} {before : List Str} {raw : Str}

omit [Unicode] in
private theorem isSectionSeparator_rstrip :
    isSectionSeparator (rstrip raw) = isSectionSeparator raw := by
  unfold isSectionSeparator
  rw [strip_rstrip]

omit [Unicode] in
theorem sectionsOf_concat : sectionsOf norm (before ++ [raw]) =
    sectionsOf norm before ++ if isSectionSeparator raw then [] else
      [(norm (rstrip raw),
        ((sectionParents before raw).map fun line => norm (rstrip line)).reverse)] := by
  have lines (lines : List Str) :
      ((lines.map rstrip).filter fun line => !isSectionSeparator line).map
          (fun line => (indentOf line, norm line)) =
        (lines.filter fun line => !isSectionSeparator line).map
          fun line => (sectionDepth line, norm (rstrip line)) := by
    rw [filter_map, map_map]
    simp only [Function.comp_def, isSectionSeparator_rstrip, sectionDepth]
  unfold sectionsOf
  rw [lines, lines, filter_append, map_append]
  have entry : chainsFrom [] ((before.filter fun line => !isSectionSeparator line).map (fun line =>
        (sectionDepth line, norm (rstrip line))) ++ [(sectionDepth raw, norm (rstrip raw))]) =
      chainsFrom [] ((before.filter fun line => !isSectionSeparator line).map fun line =>
        (sectionDepth line, norm (rstrip line))) ++
      [(norm (rstrip raw),
        ((sectionParents before raw).map fun line => norm (rstrip line)).reverse)] := by
    rw [chainsFrom_concat, closeTo_openAfter, ancestors, map_map]
    rfl
  cases isSep : isSectionSeparator raw with
  | true => simp [isSep]
  | false =>
    rw [filter_cons_of_pos (by rw [isSep]; rfl), filter_nil, map_singleton]
    exact entry

theorem stripFrom_append (stack : List (Nat × Str)) :
    stripFrom stack (before ++ [raw]) = stripFrom stack before ++
      stripFrom (openAfter stack ((before.filter fun line => strip line ≠ []).map
        fun line => (leadingSpaces line, strip line))) [raw] := by
  induction before generalizing stack with
  | nil => rfl
  | cons line before ih =>
    rw [cons_append, stripFrom, stripFrom]
    by_cases isBlank : strip line = []
    · rw [if_pos isBlank, if_pos isBlank, filter_cons_of_neg (by simpa using isBlank),
        ih, cons_append]
    · rw [if_neg isBlank, if_neg isBlank, filter_cons_of_pos (by simpa using isBlank)]
      simp only [ih]
      split
      · rfl
      · rfl

theorem hidden_of_blank {chain : List Str} (isBlank : strip raw = []) :
    hidden chain raw = none := by
  cases chain with
  | nil => rfl
  | cons top rest =>
    have noRule : ∀ rule ∈ hiddenRules, rule.pattern [] = false := by
      simp only [hiddenRules, forall_mem_cons, not_mem_nil, false_implies, implies_true,
        and_true]
      decide
    rw [hidden, Option.map_eq_none_iff, List.find?_eq_none]
    intro rule isRule
    rw [isBlank, noRule rule isRule, Bool.and_false]
    decide

theorem stripFrom_line (stack : List (Nat × Str)) : stripFrom stack [raw] =
    if (hidden (ancestors (closeTo (leadingSpaces raw) stack)) raw).isSome then [] else [raw] := by
  rw [stripFrom]
  by_cases isBlank : strip raw = []
  · rw [if_pos isBlank, hidden_of_blank isBlank]
    rfl
  · rw [if_neg isBlank]
    change (if (hidden (ancestors (closeTo (leadingSpaces raw) stack)) raw).isNone
      then [raw] else []) = _
    cases hidden (ancestors (closeTo (leadingSpaces raw) stack)) raw with
    | none | some reason => rfl

theorem removed_iff : Removed before raw ↔ hiddenBySpaces before raw := by
  unfold Removed hiddenBySpaces spaceParents
  rw [stripFrom_append, stripFrom_line, closeTo_openAfter, ancestors, map_map]
  change _ ++ (if (hidden ((nearest leadingSpaces (leadingSpaces raw) _).map strip).reverse
    raw).isSome then [] else [raw]) = _ ↔ _
  cases (hidden ((nearest leadingSpaces (leadingSpaces raw)
    (before.filter fun line => strip line ≠ []).reverse).map strip).reverse raw).isSome with
  | false => simp
  | true => simp

theorem named_iff : Named (sectionsOf norm) before raw ↔ hiddenBySections norm before raw := by
  unfold Named hiddenBySections
  rw [sectionsOf_concat]
  cases isSep : isSectionSeparator raw with
  | true | false => simp

theorem named_deploy_iff : Named (deployChains serial) before raw ↔
    (roundtripStep serial (stateBefore serial before) raw).2 = some raw ∧
      hiddenBySections canonicaliseLine (stripForRoundtripFrom serial {} before) raw := by
  rw [← named_iff]
  unfold Named deployChains
  rw [stripForRoundtripFrom_append, stripForRoundtripFrom, stripForRoundtripFrom, append_nil]
  change (∃ entry, sectionsOf _
    (_ ++ (roundtripStep serial (stateBefore serial before) raw).2.toList) = _ ∧ _) ↔ _
  cases stays : (roundtripStep serial (stateBefore serial before) raw).2 with
  | none => simp
  | some kept =>
    rw [roundtripStep_keeps stays]
    simp

end Readings

/-! ### Where only spaces indent -/

/-- The two rules of `HIDDEN`: no separator is a section of theirs, and a line is named by its
outermost parent, a `no shutdown` by its only one. -/
theorem hidden_parents : ∃ sla interface : Str → Bool,
    (∀ line, sla (strip line) ∨ interface (strip line) → isSectionSeparator line = false) ∧
    ∀ (parents : List Str) (shown : Str → Str) (raw value : Str),
      (∀ line, strip (shown line) = strip line) → strip value = strip raw →
      ((hidden (parents.map shown).reverse value).isSome = true ↔
        ∃ top, parents.getLast? = some top ∧
          (sla (strip top) ∧ strip raw = "frequency 60".ascii ∨
            parents.length = 1 ∧ interface (strip top) ∧ strip raw = "no shutdown".ascii)) := by
  refine ⟨fun top => (afterPrefix "ip sla ".ascii top).any fun rest =>
      rest != [] && rest.all isDecimal,
    fun top => (afterPrefix "interface ".ascii top).any fun rest =>
      rest.head?.any fun c => !isSpace c, fun line isSection => ?_,
    fun parents shown raw value isShown isValue => ?_⟩
  · rw [isSectionSeparator, contains_eq_mem, decide_eq_false_iff_not]
    intro isSep
    simp only [mem_cons, not_mem_nil, or_false] at isSep
    rcases isSep with isText | isText | isText
    all_goals
      rw [isText] at isSection
      rcases isSection with isSla | isInterface
      · cases isSla
      · cases isInterface
  · rcases eq_nil_or_concat parents with rfl | ⟨inner, top, rfl⟩
    · simp [hidden]
    · rw [concat_eq_append, map_append, map_singleton, reverse_append,
        reverse_singleton, singleton_append, List.getLast?_concat]
      simp [hidden, hiddenRules, isShown, isValue, List.find?_isSome, and_assoc]

/-- No separator is a parent the rule of a line asks for: the outermost one, any of a
`no shutdown`. -/
def Undisturbed (before : List Str) (raw : Str) : Prop :=
  (∀ top, (spaceParents before raw).getLast? = some top → isSectionSeparator top = false) ∧
  (strip raw = "no shutdown".ascii →
    ∀ parent ∈ spaceParents before raw, isSectionSeparator parent = false)

section Spaces

variable {before : List Str} {raw : Str}

omit [Unicode] in
private theorem visible_of_not_separator (notSep : isSectionSeparator raw = false) :
    strip raw ≠ [] := by
  intro isBlank
  rw [isSectionSeparator, isBlank] at notSep
  cases notSep

omit [Unicode] in
private theorem sectionParents_of_spaces
    (spaced : ∀ line ∈ before ++ [raw], strip line ≠ [] → leadingSpaces line = sectionDepth line)
    (isVisible : strip raw ≠ []) :
    sectionParents before raw = nearest leadingSpaces (leadingSpaces raw)
      ((before.filter fun line => strip line ≠ []).reverse.filter
        fun line => !isSectionSeparator line) := by
  have visible : before.filter (fun line => !isSectionSeparator line) =
      (before.filter fun line => strip line ≠ []).filter fun line => !isSectionSeparator line := by
    rw [filter_filter]
    refine filter_congr fun line _ => ?_
    cases isSep : isSectionSeparator line with
    | true => rfl
    | false => simp [visible_of_not_separator isSep]
  have same : ∀ line ∈ (before.filter fun line => !isSectionSeparator line).reverse,
      sectionDepth line = leadingSpaces line := by
    intro line inside
    obtain ⟨isBefore, notSep⟩ := mem_filter.mp (mem_reverse.mp inside)
    rw [Bool.not_eq_true'] at notSep
    exact (spaced line (mem_append_left _ isBefore) (visible_of_not_separator notSep)).symm
  rw [sectionParents, nearest_congr same, ← spaced raw (by simp) isVisible, visible,
    filter_reverse]

/-- Where only spaces indent, `strip` names no line too many, and each it should unless a
separator stands among the parents its rule asks for. -/
private theorem hiddenBySpaces_iff
    (spaced : ∀ line ∈ before ++ [raw], strip line ≠ [] → leadingSpaces line = sectionDepth line) :
    hiddenBySpaces before raw ↔ hiddenBySections id before raw ∧ Undisturbed before raw := by
  obtain ⟨sla, interface, notSep, named⟩ := hidden_parents
  have bySpaces := named (spaceParents before raw) strip raw raw (fun _ => strip_strip) rfl
  have bySections := named (sectionParents before raw) (fun line => id (rstrip line)) raw
    (id (rstrip raw)) (fun _ => strip_rstrip) strip_rstrip
  have shown : strip raw = "frequency 60".ascii ∨ strip raw = "no shutdown".ascii →
      isSectionSeparator raw = false := by
    rintro (isText | isText)
    · rw [isSectionSeparator, isText]
      decide
    · rw [isSectionSeparator, isText]
      decide
  unfold hiddenBySpaces hiddenBySections Undisturbed
  rw [Bool.and_eq_true, Bool.not_eq_true', bySpaces, bySections]
  by_cases isShown : strip raw = "frequency 60".ascii ∨ strip raw = "no shutdown".ascii
  swap
  · rw [not_or] at isShown
    simp [isShown]
  have parents := sectionParents_of_spaces spaced (visible_of_not_separator (shown isShown))
  have outermost {top : Str} (isTop : (spaceParents before raw).getLast? = some top)
      (isPlain : isSectionSeparator top = false) :
      (sectionParents before raw).getLast? = some top := by
    rw [parents]
    exact outermost_filter (Nat.le_refl _) isTop (by rw [isPlain]; rfl)
  have plain (allPlain : ∀ parent ∈ spaceParents before raw, isSectionSeparator parent = false) :
      sectionParents before raw = spaceParents before raw := by
    rw [parents]
    exact nearest_filter fun line isParent => by rw [allPlain line isParent]; rfl
  constructor
  · rintro ⟨top, isTop, ⟨isSla, isText⟩ | ⟨single, isInterface, isText⟩⟩
    · have isPlain := notSep top (.inl isSla)
      refine ⟨⟨shown isShown, top, outermost isTop isPlain, .inl ⟨isSla, isText⟩⟩,
        fun other isOther => ?_, fun isOther => ?_⟩
      · rw [← Option.some_inj.mp (isTop.symm.trans isOther)]
        exact isPlain
      · rw [isText] at isOther
        exact absurd isOther (by decide)
    · obtain ⟨only, isOnly⟩ := length_eq_one_iff.mp single
      have isOwn : only = top := by
        rw [isOnly, List.getLast?_singleton, Option.some_inj] at isTop
        exact isTop
      have allPlain : ∀ parent ∈ spaceParents before raw, isSectionSeparator parent = false := by
        intro parent isParent
        rw [isOnly, mem_singleton] at isParent
        rw [isParent, isOwn]
        exact notSep top (.inr isInterface)
      refine ⟨⟨shown isShown, top, ?_, .inr ⟨?_, isInterface, isText⟩⟩,
        fun other isOther => allPlain other (mem_of_getLast? isOther), fun _ => allPlain⟩
      · rwa [plain allPlain]
      · rwa [plain allPlain]
  · rintro ⟨⟨-, top, isTop, isNamed⟩, topPlain, isDirect⟩
    rcases isNamed with ⟨isSla, isText⟩ | ⟨single, isInterface, isText⟩
    · cases isLast : (spaceParents before raw).getLast? with
      | none =>
        have noParents : spaceParents before raw = [] := List.getLast?_eq_none_iff.mp isLast
        rw [plain (by rw [noParents]; simp), noParents] at isTop
        cases isTop
      | some other =>
        have same := Option.some_inj.mp
          ((outermost isLast (topPlain other isLast)).symm.trans isTop)
        exact ⟨other, rfl, .inl ⟨same ▸ isSla, isText⟩⟩
    · have same := plain (isDirect isText)
      rw [same] at isTop single
      exact ⟨top, isTop, .inr ⟨single, isInterface, isText⟩⟩

end Spaces

/-! ### When `strip` is exact -/

/-- **`strip` is exact when the two readings name the same lines**: by the nearest preceding less
indented lines, with spaces counted and separators among them, and with white space counted and
separators left out. Where only spaces indent a text, that is when no separator is a parent the
rule of a named line asks for. -/
theorem strip_exact_iff (text : Str) :
    (Exact (sectionsOf id) (splitlines text) ↔
      ∀ before raw after, splitlines text = before ++ raw :: after →
        (hiddenBySpaces before raw = true ↔ hiddenBySections id before raw = true)) ∧
    (Exact (deployChains (deviceSerial text)) (splitlines text) ↔
      ∀ before raw after, splitlines text = before ++ raw :: after →
        (hiddenBySpaces before raw = true ↔
          (roundtripStep (deviceSerial text) (stateBefore (deviceSerial text) before) raw).2 =
              some raw ∧
            hiddenBySections canonicaliseLine
              (stripForRoundtripFrom (deviceSerial text) {} before) raw = true)) ∧
    ((∀ line ∈ splitlines text, strip line ≠ [] → leadingSpaces line = sectionDepth line) →
      (Exact (sectionsOf id) (splitlines text) ↔
        ∀ before raw after, splitlines text = before ++ raw :: after →
          hiddenBySections id before raw = true → Undisturbed before raw)) := by
  refine ⟨?_, ?_, fun spaced => ?_⟩
  · unfold Exact
    simp only [removed_iff, named_iff]
  · unfold Exact
    simp only [removed_iff, named_deploy_iff]
  · unfold Exact
    simp only [removed_iff, named_iff]
    refine forall_congr' fun before => forall_congr' fun raw => forall_congr' fun after =>
      forall_congr' fun isSplit => ?_
    have here : ∀ line ∈ before ++ [raw], strip line ≠ [] →
        leadingSpaces line = sectionDepth line := by
      intro line inside
      refine spaced line ?_
      rw [isSplit]
      rcases List.mem_append.mp inside with isBefore | isRaw
      · exact List.mem_append_left _ isBefore
      · rw [List.mem_singleton.mp isRaw]
        exact List.mem_append_right _ (.head _)
    rw [hiddenBySpaces_iff here]
    exact ⟨fun same isNamed => (same.mpr isNamed).2,
      fun undisturbed => ⟨And.left, fun isNamed => ⟨isNamed, undisturbed isNamed⟩⟩⟩

/-- An operation's lines with a `!` in front of its frequency. -/
def barredOperation : Str := "ip sla 1\n icmp-echo 192.0.2.1\n!\n frequency 60\n".ascii

omit [Unicode] in
/-- A `!` in front of a default ends its section for `strip` alone. -/
theorem separator_keeps_default :
    letI : Unicode := basicLatin
    ¬ Exact (sectionsOf id) (splitlines barredOperation) ∧
      ¬ Exact (deployChains (deviceSerial barredOperation)) (splitlines barredOperation) := by
  let _ : Unicode := basicLatin
  have isSplit : splitlines barredOperation =
      ["ip sla 1".ascii, " icmp-echo 192.0.2.1".ascii, "!".ascii] ++
        " frequency 60".ascii :: [] := by
    decide +kernel
  constructor
  · intro exact_
    have both := exact_ _ _ _ isSplit
    rw [removed_iff, named_iff] at both
    exact absurd both (by decide +kernel)
  · intro exact_
    have both := exact_ _ _ _ isSplit
    rw [removed_iff, named_deploy_iff] at both
    exact absurd both (by decide +kernel)

end Nmas.Nsot.PlatformDefaults
