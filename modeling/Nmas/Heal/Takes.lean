import Nmas.Heal.Decisions

/-!
Contract: a decision's take and its outcome, in the rows and as they are read.

Owns:
- the rows that take a decision, and those that end it;
- a record is taken, or ended, where a row of its decision says so;
- what `take` and `withdraw` append is the first of its kind.
-/

namespace Nmas.Heal

open Nmas.Text List
open Nmas.Log (put amend)

/-- A `taken` or `withdrawn` row of a decision. -/
def Row.takes (decision : Str) : Row → Bool
  | .taken id _ | .withdrawn id _ => id = decision
  | _ => false

/-- An `applied` row of a decision. -/
def Row.applies (decision : Str) : Row → Bool
  | .applied id _ => id = decision
  | _ => false

def Row.ends (decision : Str) : Row → Bool
  | .applied id _ | .withdrawn id _ => id = decision
  | _ => false

variable {rows : List Row} {records : List Record} {row : Row} {record : Record} {decision : Str}

/-- What a row leaves of a record: its decision, and a take and an outcome where
it had them or the row gives them. -/
def Reads (row : Row) (old record : Record) : Prop :=
  record.toDecision = old.toDecision ∧
    record.taken.isSome = (old.taken.isSome || row.takes old.id) ∧
    record.applied.isSome = (old.applied.isSome || row.ends old.id)

theorem reads_amend {id : Str} {change : Record → Record}
    (here : ∀ record : Record, record.id = id → Reads row record (change record))
    (others : ∀ record : Record, record.id ≠ id → Reads row record record)
    (member : record ∈ amend (fun record : Record => record.id) id change records) :
    ∃ old ∈ records, Reads row old record := by
  obtain ⟨old, isOld, isRecord⟩ := mem_map.mp member
  refine ⟨old, isOld, ?_⟩
  rw [← isRecord]
  split
  · exact here old ‹_›
  · exact others old ‹_›

theorem readRow_reads (member : record ∈ readRow records row) :
    ∃ old ∈ records, Reads row old record := by
  cases row with
  | decision decided => exact ⟨record, member, rfl, by simp [Row.takes], by simp [Row.ends]⟩
  | halt halt => exact ⟨record, member, rfl, by simp [Row.takes], by simp [Row.ends]⟩
  | lift id => exact ⟨record, member, rfl, by simp [Row.takes], by simp [Row.ends]⟩
  | mark id mark =>
    refine reads_amend ?_ ?_ member
    · intro old _
      exact ⟨rfl, by simp [Row.takes], by simp [Row.ends]⟩
    · intro old _
      exact ⟨rfl, by simp [Row.takes], by simp [Row.ends]⟩
  | taken id taken =>
    refine reads_amend ?_ ?_ member
    · intro old isId
      exact ⟨rfl, by simp [Row.takes, isId], by simp [Row.ends]⟩
    · intro old isOther
      exact ⟨rfl, by simp [Row.takes, Ne.symm isOther], by simp [Row.ends]⟩
  | applied id applied =>
    refine reads_amend ?_ ?_ member
    · intro old isId
      exact ⟨rfl, by simp [Row.takes], by simp [Row.ends, isId]⟩
    · intro old isOther
      exact ⟨rfl, by simp [Row.takes], by simp [Row.ends, Ne.symm isOther]⟩
  | withdrawn id withdrawn =>
    refine reads_amend ?_ ?_ member
    · intro old isId
      exact ⟨rfl, by simp [Row.takes, isId], by simp [Row.ends, isId]⟩
    · intro old isOther
      exact ⟨rfl, by simp [Row.takes, Ne.symm isOther], by simp [Row.ends, Ne.symm isOther]⟩

theorem foldl_reads (member : record ∈ rows.foldl readRow records) :
    ∃ old ∈ records, record.toDecision = old.toDecision ∧
      record.taken.isSome = (old.taken.isSome || rows.any (Row.takes old.id)) ∧
      record.applied.isSome = (old.applied.isSome || rows.any (Row.ends old.id)) := by
  induction rows generalizing records with
  | nil => exact ⟨record, member, rfl, by simp, by simp⟩
  | cons row rest ih =>
    obtain ⟨middle, isMiddle, sameDecision, taken, applied⟩ := ih member
    obtain ⟨old, isOld, before, takenBefore, appliedBefore⟩ := readRow_reads isMiddle
    have sameId : middle.id = old.id := congrArg Decision.id before
    refine ⟨old, isOld, sameDecision.trans before, ?_, ?_⟩
    · rw [taken, takenBefore, sameId, any_cons, Bool.or_assoc]
    · rw [applied, appliedBefore, sameId, any_cons, Bool.or_assoc]

theorem decided_new {decided : List Decision}
    (isNew : ∀ record ∈ records, record.taken = none ∧ record.applied = none)
    (member : record ∈ decided.foldl
      (fun records decided => put (·.id) decided.record records) records) :
    record.taken = none ∧ record.applied = none := by
  induction decided generalizing records with
  | nil => exact isNew record member
  | cons first rest ih =>
    apply ih _ member
    intro one isOne
    rcases Nmas.Log.mem_put isOne with before | rfl
    · exact isNew one before
    · exact ⟨rfl, rfl⟩

theorem decisions_taken (member : record ∈ decisions rows) :
    record.taken.isSome = rows.any (Row.takes record.id) ∧
      record.applied.isSome = rows.any (Row.ends record.id) := by
  obtain ⟨old, isOld, sameDecision, taken, applied⟩ := foldl_reads member
  obtain ⟨notTaken, notApplied⟩ := decided_new (fun _ isNone => by cases isNone) isOld
  have sameId : record.id = old.id := congrArg Decision.id sameDecision
  rw [taken, applied, notTaken, notApplied, sameId]
  exact ⟨rfl, rfl⟩

theorem take_first {id by_ : Str} {now : Clock} (isTaken : take id by_ now rows = .ok row) :
    row = .taken id ⟨by_, iso now⟩ ∧ rows.any (Row.takes id) = false := by
  unfold take at isTaken
  split at isTaken
  · cases isTaken
  · rename_i record isFound
    split at isTaken
    · cases isTaken
    · split at isTaken
      · cases isTaken
      · rename_i notTaken
        cases isTaken
        have isId : record.id = id := by simpa using List.find?_some isFound
        have reads := (decisions_taken (mem_of_find?_eq_some isFound)).1
        rw [notTaken, isId] at reads
        exact ⟨rfl, reads.symm⟩

theorem withdraw_first {id by_ : Str} {how : WithdrawnHow} {now : Clock}
    (isWithdrawn : withdraw id how by_ now rows = .ok row) :
    row = .withdrawn id ⟨how, by_, iso now⟩ ∧ rows.any (Row.takes id) = false := by
  unfold withdraw at isWithdrawn
  split at isWithdrawn
  · cases isWithdrawn
  · rename_i record isFound
    split at isWithdrawn
    · cases isWithdrawn
    · split at isWithdrawn
      · cases isWithdrawn
      · rename_i notTaken
        cases isWithdrawn
        have isId : record.id = id := by simpa using List.find?_some isFound
        have reads := (decisions_taken (mem_of_find?_eq_some isFound)).1
        rw [notTaken, isId] at reads
        exact ⟨rfl, reads.symm⟩

/-! ### No two records are of one decision -/

theorem foldl_ids : (rows.foldl readRow records).map (·.id) = records.map (·.id) := by
  have same := @foldl_readRow_decision rows records
  have mapped := congrArg (List.map Decision.id) same
  rw [map_map, map_map] at mapped
  exact mapped

theorem decided_distinct {decided : List Decision} (distinct : (records.map (·.id)).Nodup) :
    ((decided.foldl (fun records decided => put (·.id) decided.record records) records).map
      (·.id)).Nodup := by
  induction decided generalizing records with
  | nil => exact distinct
  | cons first rest ih =>
    exact ih (Nmas.Log.put_distinct distinct)

theorem decisions_distinct (rows : List Row) : ((decisions rows).map (·.id)).Nodup := by
  unfold decisions
  rw [foldl_ids]
  exact decided_distinct nodup_nil

end Nmas.Heal
