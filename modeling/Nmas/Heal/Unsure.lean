import Nmas.Heal.OneOutcome

/-!
Contract: what is to be written after an outcome that halts the network.

Owns:
- the outcomes that halt, and the halt and the incident of a decision as the
  rows have them;
- what a job is still to write once it has written such an outcome, and
  `Prompt`, the steps that let it;
- `Halts`, and `Owed`, what a run keeps of it.

An outcome, its halt and its incident's close are three writes. A reap finds
the decisions with no outcome, so that nobody comes back to a decision whose
outcome is written.
-/

namespace Nmas.Heal

open Nmas.Text List
open Nmas.Log (put)

/-- An outcome that halts the network where the act had started. -/
def Ended.halts : Ended → Bool
  | .rolledBack | .failed | .interrupted => true
  | _ => false

def Row.unsure (decision : Str) : Row → Bool
  | .applied id written => id = decision && written.outcome.halts
  | _ => false

def Row.haltsFor (decision : Str) : Row → Bool
  | .halt one => one.guard = 14 && one.decision = some decision
  | _ => false

def Row.of : Row → Option Str
  | .decision decided => some decided.id
  | .mark id _ | .taken id _ | .applied id _ | .withdrawn id _ => some id
  | .halt _ | .lift _ => none

variable {rows : List Row} {row : Row} {decision : Str} {record : Record} {records : List Record}

/-! ### The outcome of a record -/

theorem readRow_applied {applied : Applied} (member : record ∈ readRow records row)
    (isApplied : record.applied = some applied) (halts : applied.outcome.halts) :
    row = .applied record.id applied ∨
      ∃ old ∈ records, old.id = record.id ∧ old.applied = some applied := by
  have amends {id : Str} (change : Record → Record)
      (here : ∀ old : Record, old.id = id → (change old).applied = some applied →
        row = .applied (change old).id applied ∨
          ((change old).id = old.id ∧ old.applied = some applied))
      (isIn : record ∈ Log.amend (fun record : Record => record.id) id change records) :
      row = .applied record.id applied ∨
        ∃ old ∈ records, old.id = record.id ∧ old.applied = some applied := by
    obtain ⟨old, isOld, isRecord⟩ := mem_map.mp isIn
    split at isRecord
    · rename_i isId
      rw [← isRecord] at isApplied ⊢
      rcases here old isId isApplied with isRow | ⟨sameId, before⟩
      · exact .inl isRow
      · exact .inr ⟨old, isOld, sameId.symm, before⟩
    · rw [← isRecord] at isApplied ⊢
      exact .inr ⟨old, isOld, rfl, isApplied⟩
  cases row with
  | decision decided | halt halt | lift id => exact .inr ⟨record, member, rfl, isApplied⟩
  | mark id mark =>
    exact amends (fun record => { record with mark := some mark }) (fun old _ same => .inr ⟨rfl, same⟩) member
  | taken id taken =>
    exact amends (fun record => { record with taken := some taken }) (fun old _ same => .inr ⟨rfl, same⟩) member
  | applied id written =>
    refine amends _ (fun old isId same => .inl ?_) member
    cases same
    exact congrArg (Row.applied · applied) isId.symm
  | withdrawn id withdrawn =>
    refine amends _ (fun old _ same => ?_) member
    cases same
    cases halts

theorem foldl_applied {applied : Applied} (member : record ∈ rows.foldl readRow records)
    (isApplied : record.applied = some applied) (halts : applied.outcome.halts) :
    .applied record.id applied ∈ rows ∨
      ∃ old ∈ records, old.id = record.id ∧ old.applied = some applied := by
  induction rows generalizing records with
  | nil => exact .inr ⟨record, member, rfl, isApplied⟩
  | cons first rest ih =>
    rcases ih member with isRow | ⟨middle, isMiddle, sameId, before⟩
    · exact .inl (.tail _ isRow)
    · rcases readRow_applied isMiddle before halts with isFirst | ⟨old, isOld, oldId, earlier⟩
      · rw [isFirst, sameId]
        exact .inl (.head _)
      · exact .inr ⟨old, isOld, oldId.trans sameId, earlier⟩

theorem decisions_applied {applied : Applied} (member : record ∈ decisions rows)
    (isApplied : record.applied = some applied) (halts : applied.outcome.halts) :
    .applied record.id applied ∈ rows := by
  rcases foldl_applied member isApplied halts with isRow | ⟨old, isOld, sameId, before⟩
  · exact isRow
  · have isNew := (decided_new (fun _ isNone => by cases isNone) isOld).2
    cases isNew.symm.trans before

/-! ### The incident of a decision -/

def decidedRecords (rows : List Row) : List Record :=
  (rows.filterMap Row.decided?).foldl (fun records decided => put (·.id) decided.record records) []

theorem find_decisions (rows : List Row) (decision : Str) :
    (findDecision rows decision).map Record.toDecision =
      ((decidedRecords rows).map Record.toDecision).find? (fun decided => decided.id = decision) := by
  have same : (decisions rows).map Record.toDecision =
      (decidedRecords rows).map Record.toDecision := foldl_readRow_decision
  rw [← same, List.find?_map]
  rfl

end Nmas.Heal

namespace Nmas.Heal.Act

open Nmas.Text
open Nmas.Log.Machine (run Along)

/-! ### What a job is still to write -/

def Task.toHalt : Task → Option Str
  | .act acting =>
    match acting.stage with
    | .halting => some acting.decision
    | _ => none
  | .reap reaping =>
    match reaping.stage with
    | .halting decision _ _ => some decision
    | _ => none
  | _ => none

/-- The decision whose incident a job is to close. -/
def Task.toClose : Task → Option Str
  | .act acting =>
    match acting.stage with
    | .halting | .closing _ _ => some acting.decision
    | _ => none
  | .reap reaping =>
    match reaping.stage with
    | .halting decision _ _ | .closing decision _ _ => some decision
    | _ => none
  | _ => none

def Task.works : Task → Option Str
  | .act acting => if acting.stage = .working then some acting.decision else none
  | _ => none

def Unsure (state : State) (decision : Str) : Prop :=
  decision ∈ state.started ∧ state.rows.any (Row.unsure decision) = true

instance (state : State) (decision : Str) : Decidable (Unsure state decision) :=
  inferInstanceAs (Decidable (_ ∧ _))

/-- A job has written such an outcome, and not yet what comes after it. -/
def State.owes (state : State) (job : Nat) : Bool :=
  (state.jobs job).any (fun job => job.task.toClose.any (fun decision => Unsure state decision))

def State.overtaken (state : State) (job : Nat) : Bool :=
  (state.jobs job).any (fun job =>
    job.task.works.any (fun decision => state.rows.any (Row.applies decision)))

/-- **The condition.** No write fails and no process ends between an outcome that
halts and its incident's close, no act starts once its decision has an outcome,
and a decision's id is drawn for it alone. -/
def Prompt (state : State) : Event → Prop
  | .goesOn job turn _ =>
    (turn = .fails → state.owes job = false) ∧ (turn = .starts → state.overtaken job = false)
  | .writes (.decision decided) => ∀ row ∈ state.rows, row.of ≠ some decided.id
  | .dies process =>
    ∀ job < state.next, ofProcess state process job = true → state.owes job = false
  | _ => True

instance (state : State) : (event : Event) → Decidable (Prompt state event)
  | .goesOn job turn _ => inferInstanceAs (Decidable
      ((turn = .fails → state.owes job = false) ∧ (turn = .starts → state.overtaken job = false)))
  | .writes (.decision decided) =>
    inferInstanceAs (Decidable (∀ row ∈ state.rows, row.of ≠ some decided.id))
  | .dies process => inferInstanceAs (Decidable
      (∀ job < state.next, ofProcess state process job = true → state.owes job = false))
  | .act .. | .withdraw .. | .find .. | .reap .. => isTrue trivial
  | .writes (.mark ..) | .writes (.taken ..) | .writes (.applied ..) => isTrue trivial
  | .writes (.withdrawn ..) | .writes (.halt ..) | .writes (.lift ..) => isTrue trivial

def Due (writes : Task → Option Str) (state : State) (decision : Str) : Prop :=
  ∃ job process task, state.jobs job = some ⟨process, task⟩ ∧ writes task = some decision

def HaltedSince (rows : List Row) (decision : Str) : Prop :=
  ∀ before applied after, rows = before ++ .applied decision applied :: after →
    applied.outcome.halts = true → after.any (Row.haltsFor decision) = true

/-- **What a heal leaves.** Every taken decision whose act had started and whose
outcome is failed, rolled back or interrupted has a halt written after it, and
its incident is closed, once no job is still to write them. -/
def Halts (state : State) : Prop :=
  ∀ record ∈ decisions state.rows, record.taken.isSome = true → record.id ∈ state.started →
    ∀ applied, record.applied = some applied → applied.outcome.halts = true →
      ¬ Due Task.toClose state record.id →
        .applied record.id applied ∈ state.rows ∧ HaltedSince state.rows record.id ∧
          record.incident ∈ state.closed

def Stage.past : Stage → Bool
  | .starting | .working | .applying _ _ | .halting | .closing _ _ => true
  | _ => false

structure Knows (rows : List Row) (acting : Acting) : Prop where
  incident : acting.incident = incidentOf rows acting.decision
  named : ∃ row ∈ rows, row.of = some acting.decision
  outcome : ∀ source, acting.stage ≠ .applying .interrupted source

structure Owed (state : State) : Prop where
  keeps : Keeps state
  acts : ∀ job process acting, state.jobs job = some ⟨process, .act acting⟩ →
    acting.stage.past = true → Knows state.rows acting
  halts : ∀ decision ∈ state.started,
    HaltedSince state.rows decision ∨ Due Task.toHalt state decision
  closes : ∀ decision, Unsure state decision →
    incidentOf state.rows decision ∈ state.closed ∨ Due Task.toClose state decision

variable {state next : State} {job other process : Nat} {task : Task} {acting : Acting}
  {rows : List Row} {row : Row} {decision : Str} {turn : Turn} {drawn : Str}

theorem toClose_of_toHalt (toHalt : task.toHalt = some decision) : task.toClose = some decision := by
  cases task with
  | act acting =>
    obtain ⟨caller, id, by_, now, inode, took, incident, stage⟩ := acting
    cases stage with
    | halting => exact toHalt
    | _ => cases toHalt
  | reap reaping =>
    obtain ⟨by_, now, stage⟩ := reaping
    cases stage with
    | halting id left rest => exact toHalt
    | _ => cases toHalt
  | withdraw withdrawing | find finding => cases toHalt

theorem Due.toClose (due : Due Task.toHalt state decision) : Due Task.toClose state decision := by
  obtain ⟨job, process, task, isJob, toHalt⟩ := due
  exact ⟨job, process, task, isJob, toClose_of_toHalt toHalt⟩

theorem applies_of_unsure (isUnsure : row.unsure decision) : row.applies decision := by
  cases row with
  | applied id applied => exact ((Bool.and_eq_true _ _).mp isUnsure).1
  | _ => cases isUnsure

/-! ### The rows a step appends -/

theorem split_append {last middle : Row} {before after : List Row}
    (isSplit : rows ++ [last] = before ++ middle :: after) :
    (∃ earlier, after = earlier ++ [last] ∧ rows = before ++ middle :: earlier) ∨ last = middle := by
  rcases List.eq_nil_or_concat after with isNil | ⟨earlier, final, isAfter⟩
  · rw [isNil] at isSplit
    have isMiddle := (List.append_inj' isSplit rfl).2
    exact .inr (List.cons.inj isMiddle).1
  · rw [isAfter, List.concat_eq_append, ← List.cons_append, ← List.append_assoc] at isSplit
    obtain ⟨isEarlier, isLast⟩ := List.append_inj' isSplit rfl
    rw [isAfter, List.concat_eq_append, (List.cons.inj isLast).1]
    exact .inl ⟨earlier, rfl, isEarlier⟩

theorem HaltedSince.append (since : HaltedSince rows decision) (isSure : row.unsure decision = false) :
    HaltedSince (rows ++ [row]) decision := by
  intro before applied after isSplit halts
  rcases split_append isSplit with ⟨earlier, isAfter, isEarlier⟩ | isRow
  · rw [isAfter, List.any_append, since before applied earlier isEarlier halts, Bool.true_or]
  · rw [isRow] at isSure
    simp [Row.unsure, halts] at isSure

theorem haltedSince_halt (isHalt : row.haltsFor decision) :
    HaltedSince (rows ++ [row]) decision := by
  intro before applied after isSplit halts
  rcases split_append isSplit with ⟨earlier, isAfter, isEarlier⟩ | isRow
  · rw [isAfter, List.any_append, List.any_cons, isHalt, Bool.true_or, Bool.or_true]
  · rw [isRow] at isHalt
    cases isHalt

theorem haltedSince_of_sure (isSure : rows.any (Row.unsure decision) = false) :
    HaltedSince rows decision := by
  intro before applied after isSplit halts
  rw [isSplit, List.any_append, List.any_cons] at isSure
  simp [Row.unsure, halts] at isSure

theorem incidentOf_append (notHere : ∀ decided, row = .decision decided → decided.id ≠ decision) :
    incidentOf (rows ++ [row]) decision = incidentOf rows decision := by
  have sameFound : ((decidedRecords (rows ++ [row])).map Record.toDecision).find?
      (fun decided => decided.id = decision) =
        ((decidedRecords rows).map Record.toDecision).find?
          (fun decided => decided.id = decision) := by
    rw [List.find?_map, List.find?_map]
    unfold decidedRecords
    rw [List.filterMap_append, List.foldl_append]
    cases row with
    | decision decided => exact congrArg _ (Log.find_put_of_ne (notHere decided rfl))
    | _ => rfl
  have same := congrArg (Option.map (fun decided : Decision => decided.incident))
    ((find_decisions (rows ++ [row]) decision).trans
      (sameFound.trans (find_decisions rows decision).symm))
  rw [Option.map_map, Option.map_map] at same
  exact congrArg (Option.getD · []) same

theorem Knows.append (knows : Knows rows acting)
    (notHere : ∀ decided, row = .decision decided → decided.id ≠ acting.decision) :
    Knows (rows ++ [row]) acting := by
  obtain ⟨isIncident, ⟨named, isNamed, isOf⟩, isOwn⟩ := knows
  refine ⟨?_, ⟨named, List.mem_append_left _ isNamed, isOf⟩, isOwn⟩
  rw [incidentOf_append notHere]
  exact isIncident

theorem Knows.goes {stage : Stage} (knows : Knows rows acting)
    (isOwn : ∀ source, stage ≠ .applying .interrupted source) :
    Knows rows { acting with stage := stage } :=
  ⟨knows.incident, knows.named, isOwn⟩

end Nmas.Heal.Act
