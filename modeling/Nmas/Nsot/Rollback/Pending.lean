import Nmas.Nsot.Rollback.Build

/-!
Owns: exactly what a rollback sends. `Undoes` says what the loop appends for an
entry of the pushed program, `mem_pending` what the whole list holds.
-/

namespace Nmas.Nsot.Rollback

open Nmas.Text List
open Nmas.Nsot.IfNames

section Pending

variable [Unicode] {pushed : List Str} {pre : Str} {landed : Option (List Key)}

/-- An entry of the pushed program with an undo of its own: it sits under no held range, and under
no section whose removal removes it. -/
structure IsReached (pushed : List Str) (pre : Str) (landed : Option (List Key))
    (entry : ProgramEntry) : Prop where
  member : entry ∈ programStructure pushed
  notRange : isUnderHeldRange pushed pre entry = false
  notImplied : isImplied pushed pre landed entry.chain = false

structure IsCreated (pushed : List Str) (pre : Str) (landed : Option (List Key))
    (entry : ProgramEntry) : Prop where
  reached : IsReached pushed pre landed entry
  isSection : entry.leaf = false
  created : programKey entry ∈ landedContainers pushed pre landed

structure IsApplied (pushed : List Str) (pre : Str) (landed : Option (List Key))
    (entry : ProgramEntry) : Prop where
  reached : IsReached pushed pre landed entry
  isLeaf : entry.leaf = true
  landed : hasLanded landed (entry.chain, entry.line) = true

/-- The held lines that set what a pushed line sets. -/
def heldFor (pre : Str) (entry : ProgramEntry) : Option (Str × List Str) :=
  previous (heldLines pre) entry.chain (canonicaliseLine entry.line)

/-- Is a pushed line one instance more beside those its key matched? -/
def isOneMore (entry : ProgramEntry) (matched : List Str) : Bool :=
  matched != [] && (negatesInstance entry.chain (canonicaliseLine entry.line) matched).1

/-- What the loop sends for an entry of the pushed program. -/
inductive Undoes (pushed : List Str) (pre : Str) (landed : Option (List Key))
    (entry : ProgramEntry) : Str → Prop
  | created (isCreated : IsCreated pushed pre landed entry) :
      Undoes pushed pre landed entry (negated entry.line)
  | oneMore (applied : IsApplied pushed pre landed entry) (held : Str) (matched : List Str)
      (found : heldFor pre entry = some (held, matched)) (other : held ≠ canonicaliseLine entry.line)
      (isInstance : isOneMore entry matched = true) :
      Undoes pushed pre landed entry (negated entry.line)
  | replaced (applied : IsApplied pushed pre landed entry) (held : Str) (matched : List Str)
      (found : heldFor pre entry = some (held, matched)) (other : held ≠ canonicaliseLine entry.line)
      (notInstance : isOneMore entry matched = false) :
      Undoes pushed pre landed entry held
  | removed (applied : IsApplied pushed pre landed entry) (free : heldFor pre entry = none)
      (isNo : "no ".ascii.isPrefixOf (strip entry.line) = true) (isSome : landed.isSome = true) :
      Undoes pushed pre landed entry (positive entry.line)
  | added (applied : IsApplied pushed pre landed entry) (free : heldFor pre entry = none)
      (isPositive : "no ".ascii.isPrefixOf (strip entry.line) = false) :
      Undoes pushed pre landed entry (negated entry.line)

private theorem applied_iff {entry : ProgramEntry} (member : entry ∈ programStructure pushed)
    (isLeaf : entry.leaf) :
    (⟨entry.line, entry.chain⟩ : Leaf) ∈ (landedLeaves pushed landed).1 ↔
      hasLanded landed (entry.chain, entry.line) := by
  have inLeaves : (⟨entry.line, entry.chain⟩ : Leaf) ∈ programLeaves pushed := by
    rw [mem_programLeaves, ← isLeaf]
    exact member
  constructor
  · intro applied
    exact (mem_filter.mp applied).2
  · intro seen
    exact mem_filter.mpr ⟨inLeaves, seen⟩

private theorem isOneMore_iff {entry : ProgramEntry} {matched : List Str} :
    isOneMore entry matched ↔ matched ≠ [] ∧
      (negatesInstance entry.chain (canonicaliseLine entry.line) matched).1 := by
  unfold isOneMore
  rw [Bool.and_eq_true, bne_iff_ne]

private theorem undoes_of_applied {entry : ProgramEntry} {command : Str}
    (applied : IsApplied pushed pre landed entry)
    (judged : judgeEntry pushed pre landed entry = judgeLeaf pre landed entry.chain entry.line) :
    (entry.chain, command) ∈ undoOf pushed pre landed entry ↔
      Undoes pushed pre landed entry command := by
  have isLeaf : entry.leaf ≠ false := by simp [applied.isLeaf]
  unfold undoOf
  rw [judged, judgeLeaf]
  constructor
  · intro sent
    cases found : previous (heldLines pre) entry.chain (canonicaliseLine entry.line) with
    | none =>
      simp only [found] at sent
      split_ifs at sent with isNo isSome
      · cases mem_singleton.mp sent
        exact .removed applied found isNo isSome
      · cases sent
      · cases mem_singleton.mp sent
        exact .added applied found (Bool.eq_false_iff.mpr isNo)
    | some hit =>
      obtain ⟨held, matched⟩ := hit
      simp only [found] at sent
      split_ifs at sent with same oneMore
      · cases sent
      · cases mem_singleton.mp sent
        exact .oneMore applied held matched found same (isOneMore_iff.mpr oneMore)
      · cases mem_singleton.mp sent
        apply Undoes.replaced applied _ matched found same
        rw [Bool.eq_false_iff]
        exact fun isInstance => oneMore (isOneMore_iff.mp isInstance)
  · intro undoes
    cases undoes with
    | created isCreated => exact absurd isCreated.isSection isLeaf
    | oneMore _ held matched found other isInstance =>
      have searched : previous (heldLines pre) entry.chain (canonicaliseLine entry.line) =
        some (held, matched) := found
      simp only [searched, if_neg other, if_pos (isOneMore_iff.mp isInstance)]
      exact .head _
    | replaced _ _ matched found other notInstance =>
      have searched : previous (heldLines pre) entry.chain (canonicaliseLine entry.line) =
        some (command, matched) := found
      have notOne := mt isOneMore_iff.mpr (Bool.eq_false_iff.mp notInstance)
      simp only [searched, if_neg other, if_neg notOne]
      exact .head _
    | removed _ free isNo isSome =>
      have searched : previous (heldLines pre) entry.chain (canonicaliseLine entry.line) = none :=
        free
      simp only [searched, if_pos isNo, if_pos isSome]
      exact .head _
    | added _ free isPositive =>
      have searched : previous (heldLines pre) entry.chain (canonicaliseLine entry.line) = none :=
        free
      simp only [searched, isPositive, Bool.false_eq_true, if_false]
      exact .head _

theorem Undoes.reached {entry : ProgramEntry} {command : Str}
    (undoes : Undoes pushed pre landed entry command) : IsReached pushed pre landed entry := by
  cases undoes with
  | created isCreated => exact isCreated.reached
  | oneMore applied | replaced applied | removed applied | added applied => exact applied.reached

theorem mem_undoOf {entry : ProgramEntry} (member : entry ∈ programStructure pushed)
    {pair : List Str × Str} :
    pair ∈ undoOf pushed pre landed entry ↔
      pair.1 = entry.chain ∧ Undoes pushed pre landed entry pair.2 := by
  have sameChain : pair ∈ undoOf pushed pre landed entry → pair.1 = entry.chain := by
    intro sent
    cases undone_of_mem_undoOf sent with
    | created | added | replaced | removed => rfl
  have onChain : ∀ command, (entry.chain, command) ∈ undoOf pushed pre landed entry ↔
      Undoes pushed pre landed entry command := by
    intro command
    by_cases under : isUnderHeldRange pushed pre entry = true
    · have judged : judgeEntry pushed pre landed entry = .underHeldRange := if_pos under
      simp only [undoOf, judged, not_mem_nil, false_iff]
      intro undoes
      exact absurd undoes.reached.notRange (by simp [under])
    · by_cases implied : isImplied pushed pre landed entry.chain = true
      · have judged : judgeEntry pushed pre landed entry = .implied := by
          rw [judgeEntry, if_neg under, if_pos implied]
        simp only [undoOf, judged, not_mem_nil, false_iff]
        intro undoes
        exact absurd undoes.reached.notImplied (by simp [implied])
      · have reached : IsReached pushed pre landed entry :=
          ⟨member, by simpa using under, by simpa using implied⟩
        by_cases isSection : entry.leaf = false
        · by_cases created : programKey entry ∈ landedContainers pushed pre landed
          · have judged : judgeEntry pushed pre landed entry = .created := by
              rw [judgeEntry, if_neg under, if_neg implied, if_pos isSection, if_pos created]
            simp only [undoOf, judged, mem_singleton, Prod.mk.injEq, true_and]
            constructor
            · rintro rfl
              exact .created ⟨reached, isSection, created⟩
            · intro undoes
              cases undoes with
              | created => rfl
              | oneMore applied | replaced applied | removed applied | added applied =>
                exact absurd applied.isLeaf (by simp [isSection])
          · have judged : judgeEntry pushed pre landed entry = .ancestry := by
              rw [judgeEntry, if_neg under, if_neg implied, if_pos isSection, if_neg created]
            simp only [undoOf, judged, not_mem_nil, false_iff]
            intro undoes
            cases undoes with
            | created isCreated => exact created isCreated.created
            | oneMore applied | replaced applied | removed applied | added applied =>
              exact absurd applied.isLeaf (by simp [isSection])
        · have isLeaf : entry.leaf := by simpa using isSection
          by_cases seen : hasLanded landed (entry.chain, entry.line) = true
          · refine undoes_of_applied ⟨reached, isLeaf, seen⟩ ?_
            rw [judgeEntry, if_neg under, if_neg implied, if_neg isSection,
              if_neg (not_not.mpr ((applied_iff member isLeaf).mpr seen))]
          · have judged : judgeEntry pushed pre landed entry = .rejected := by
              rw [judgeEntry, if_neg under, if_neg implied, if_neg isSection,
                if_pos (mt (applied_iff member isLeaf).mp seen)]
            simp only [undoOf, judged, not_mem_nil, false_iff]
            intro undoes
            cases undoes with
            | created isCreated => exact isSection isCreated.isSection
            | oneMore applied | replaced applied | removed applied | added applied =>
              exact seen applied.landed
  constructor
  · intro sent
    have same := sameChain sent
    refine ⟨same, (onChain pair.2).mp ?_⟩
    rw [← same]
    exact sent
  · rintro ⟨same, undoes⟩
    have sent := (onChain pair.2).mpr undoes
    rw [← same] at sent
    exact sent

/-- A setting under a held range that not every line of the range carried. -/
structure IsRegrouped (pushed : List Str) (pre : Str) (landed : Option (List Key)) (header : Str)
    (range : LineRange) (child : Str) : Prop where
  isRange : header ∈ heldRanges pushed pre
  parsed : lineRange header = some range
  isChild : child ∈ rangeChildren pushed landed header
  notCarried : carriedByAll range pre child = false

theorem mem_lineRangeUndo {header : Str} {children : List Str} {pair : List Str × Str} :
    pair ∈ lineRangeUndo header children pre ↔
      ∃ range, lineRange header = some range ∧
        ∃ child ∈ children, carriedByAll range pre child = false ∧
          (pair = ([header], negated child) ∨ ∃ stanza ∈ overlappingStanzas header pre,
            ∃ line ∈ stanza.children, pair = ([stanza.header], line)) := by
  unfold lineRangeUndo
  cases parsed : lineRange header with
  | none => simp
  | some range =>
    have inFilter : ∀ child, child ∈ children.filter (fun child => !carriedByAll range pre child) ↔
        child ∈ children ∧ carriedByAll range pre child = false := by
      intro child
      rw [mem_filter, Bool.not_eq_true']
    simp only [Option.some.injEq, exists_eq_left']
    split_ifs with nothing
    · rw [filter_eq_nil_iff] at nothing
      constructor
      · exact nofun
      · rintro ⟨child, isChild, notCarried, -⟩
        exact absurd (by simp [notCarried]) (nothing child isChild)
    · rw [mem_append, mem_map, mem_flatMap]
      constructor
      · rintro (⟨child, inside, rfl⟩ | ⟨stanza, overlaps, sent⟩)
        · obtain ⟨isChild, notCarried⟩ := (inFilter child).mp inside
          exact ⟨child, isChild, notCarried, .inl rfl⟩
        · obtain ⟨child, inside⟩ := exists_mem_of_ne_nil _ nothing
          obtain ⟨isChild, notCarried⟩ := (inFilter child).mp inside
          obtain ⟨line, isLine, rfl⟩ := mem_map.mp sent
          exact ⟨child, isChild, notCarried, .inr ⟨stanza, overlaps, line, isLine, rfl⟩⟩
      · rintro ⟨child, isChild, notCarried, rfl | ⟨stanza, overlaps, line, isLine, rfl⟩⟩
        · exact .inl ⟨child, (inFilter child).mpr ⟨isChild, notCarried⟩, rfl⟩
        · exact .inr ⟨stanza, overlaps, mem_map.mpr ⟨line, isLine, rfl⟩⟩

/-- **What a rollback sends**: what undoes an entry in its section, the negation of what was
regrouped, and the stanzas that a regrouped range overlaps. -/
theorem mem_pending {pair : List Str × Str} :
    pair ∈ pending pushed pre landed ↔
      (∃ entry, pair.1 = entry.chain ∧ Undoes pushed pre landed entry pair.2) ∨
        ∃ header range child, IsRegrouped pushed pre landed header range child ∧
          (pair = ([header], negated child) ∨ ∃ stanza ∈ overlappingStanzas header pre,
            ∃ line ∈ stanza.children, pair = ([stanza.header], line)) := by
  unfold pending
  rw [mem_append, mem_flatMap, mem_flatMap]
  apply or_congr
  · constructor
    · rintro ⟨entry, member, sent⟩
      exact ⟨entry, (mem_undoOf member).mp sent⟩
    · rintro ⟨entry, undo⟩
      have member := undo.2.reached.member
      exact ⟨entry, member, (mem_undoOf member).mpr undo⟩
  · constructor
    · rintro ⟨header, isRange, sent⟩
      obtain ⟨range, parsed, child, isChild, notCarried, isSent⟩ := mem_lineRangeUndo.mp sent
      exact ⟨header, range, child, ⟨isRange, parsed, isChild, notCarried⟩, isSent⟩
    · rintro ⟨header, range, child, regrouped, isSent⟩
      exact ⟨header, regrouped.isRange, mem_lineRangeUndo.mpr
        ⟨range, regrouped.parsed, child, regrouped.isChild, regrouped.notCarried, isSent⟩⟩

end Pending

end Nmas.Nsot.Rollback
