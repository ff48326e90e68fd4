import Nmas.Rotation.Run

/-!
Contract: every device of a run is accounted for.

Owns:
- the calls of a turn that are not guarded, and the turns that go on;
- a run's record and its rotations, device by device;
- the runs that append their record, exactly.
-/

namespace Nmas.Rotation

open Nmas.Text

/-! ### A turn -/

def Turn.Rotates (turn : Turn) : Prop :=
  turn.held = .nobody ∧ turn.restarting = .ok [] ∧ turn.offIntent = .ok [] ∧
    ∃ plan, turn.plan = .ok plan ∧ plan.ok = true

/-- A call made in the turn raises, and nothing guards it: any error of the hold
check but an `OSError`, and any of the restart check, the plan or the rotation. -/
def Turn.Raises (turn : Turn) : Prop :=
  (∃ error, turn.held = .raises error) ∨
    turn.held = .nobody ∧ ((∃ error, turn.restarting = .error error) ∨
      turn.restarting = .ok [] ∧ turn.offIntent = .ok [] ∧ ((∃ error, turn.plan = .error error) ∨
        (∃ plan, turn.plan = .ok plan ∧ plan.ok = true) ∧ ∃ error, turn.rotate = .error error))

def Turn.GoesOn (turn : Turn) : Prop :=
  ¬ turn.Raises ∧ (turn.Rotates → turn.rotate = .ok .persisted)

variable {turn : Turn} {asked : Asked} {states : List DeviceState} {state : DeviceState}
  {record : Record} {calls : List Call} {position : Nat} {why : Why} {plan : Plan}

theorem check_cases (turn : Turn) :
    (∃ error, turn.check = .error error ∧ turn.Raises) ∨
      (∃ why, turn.check = .ok (.error why) ∧ ¬ turn.Raises ∧ ¬ turn.Rotates) ∨
      (∃ plan, turn.check = .ok (.ok plan) ∧ turn.Rotates) := by
  unfold Turn.check
  split
  · rename_i words isHeld
    exact .inr (.inl ⟨_, rfl, by simp [Turn.Raises, isHeld], by simp [Turn.Rotates, isHeld]⟩)
  · rename_i error isHeld
    exact .inr (.inl ⟨_, rfl, by simp [Turn.Raises, isHeld], by simp [Turn.Rotates, isHeld]⟩)
  · rename_i error isHeld
    exact .inl ⟨error, rfl, .inl ⟨error, isHeld⟩⟩
  · rename_i isFree
    split
    · rename_i error isRaised
      exact .inl ⟨error, rfl, .inr ⟨isFree, .inl ⟨error, isRaised⟩⟩⟩
    · rename_i reason isRestarting
      split
      · rename_i isReason
        refine .inr (.inl ⟨_, rfl, ?_, ?_⟩)
        · simp [Turn.Raises, isFree, isRestarting, isReason]
        · simp [Turn.Rotates, isRestarting, isReason]
      · rename_i noReason
        have isUp : turn.restarting = .ok [] := by
          rw [isRestarting, not_not.mp noReason]
        split
        · rename_i error isUnread
          refine .inr (.inl ⟨_, rfl, ?_, ?_⟩)
          · simp [Turn.Raises, isFree, isUp, isUnread]
          · simp [Turn.Rotates, isUnread]
        · rename_i intent isIntent
          split
          · rename_i isReason
            refine .inr (.inl ⟨_, rfl, ?_, ?_⟩)
            · simp [Turn.Raises, isFree, isUp, isIntent, isReason]
            · simp [Turn.Rotates, isIntent, isReason]
          · rename_i noReason
            have isOn : turn.offIntent = .ok [] := by
              rw [isIntent, not_not.mp noReason]
            split
            · rename_i error isRaised
              exact .inl ⟨error, rfl, .inr ⟨isFree, .inr ⟨isUp, isOn, .inl ⟨error, isRaised⟩⟩⟩⟩
            · rename_i plan isPlan
              split
              · rename_i isOk
                exact .inr (.inr ⟨plan, rfl, isFree, isUp, isOn, plan, isPlan, isOk⟩)
              · rename_i notOk
                refine .inr (.inl ⟨_, rfl, ?_, ?_⟩)
                · simp [Turn.Raises, isFree, isUp, isOn, isPlan, notOk]
                · simp [Turn.Rotates, isPlan, notOk]

/-- The turns from one on answer: no call of a turn the run comes to raises. -/
def Asked.AnswersFrom (asked : Asked) (position : Nat) (states : List DeviceState) : Prop :=
  ∀ turn < states.length,
    (∀ earlier < turn, holding asked.windows (asked.turns (position + earlier)).at_ = none ∧
      (asked.turns (position + earlier)).GoesOn) →
    holding asked.windows (asked.turns (position + turn)).at_ = none →
    ¬ (asked.turns (position + turn)).Raises

/-- **The condition.** No call raises, beyond what is guarded, in a turn the run
comes to: every earlier device was skipped or rotated, and no no-change window
began. -/
def Asked.Answers (asked : Asked) : Prop := asked.AnswersFrom 0 asked.chosen

theorem answersFrom_cons :
    asked.AnswersFrom position (state :: states) ↔
      (holding asked.windows (asked.turns position).at_ = none →
        ¬ (asked.turns position).Raises ∧
          ((asked.turns position).GoesOn → asked.AnswersFrom (position + 1) states)) := by
  constructor
  · intro answers noWindow
    refine ⟨answers 0 (Nat.succ_pos _) (fun _ isEarlier => by omega) noWindow, ?_⟩
    intro goesOn turn isTurn before isOpen
    have shifted : position + 1 + turn = position + (turn + 1) := by omega
    rw [shifted] at isOpen ⊢
    refine answers (turn + 1) (Nat.succ_lt_succ isTurn) (fun earlier isEarlier => ?_) isOpen
    cases earlier with
    | zero => exact ⟨noWindow, goesOn⟩
    | succ earlier =>
      have same : position + 1 + earlier = position + (earlier + 1) := by omega
      rw [← same]
      exact before earlier (Nat.lt_of_succ_lt_succ isEarlier)
  · intro answers turn isTurn before isOpen
    cases turn with
    | zero => exact (answers isOpen).1
    | succ turn =>
      obtain ⟨noWindow, goesOn⟩ := before 0 (Nat.succ_pos _)
      have same (turn : Nat) : position + 1 + turn = position + (turn + 1) := by omega
      have later := (answers noWindow).2 goesOn turn (Nat.lt_of_succ_lt_succ isTurn)
      rw [same] at later
      refine later (fun earlier isEarlier => ?_) isOpen
      rw [same]
      exact before (earlier + 1) (Nat.succ_lt_succ isEarlier)

/-! ### A run's record -/

def Record.devices (record : Record) : List Device :=
  record.rotated.map (·.device) ++ record.skipped.map (·.device) ++
    (record.failed.map (·.device)).toList ++ record.notReached

def Record.tried (record : Record) : List Device :=
  record.rotated.map (·.device) ++ (record.failed.map (·.device)).toList

/-- One record, with every chosen device in one of its places, every device whose
rotation was asked for rotated or failed, and none after the first that failed. -/
def Accounts (chosen : List Device) (outcome : Outcome) : Prop :=
  ∃ record, outcome.appended = [record] ∧ record.devices.Perm chosen ∧
    outcome.calls.map (·.state.device) = record.tried

theorem Accounts.perm {chosen other : List Device} {outcome : Outcome}
    (accounts : Accounts chosen outcome) (perm : chosen.Perm other) : Accounts other outcome := by
  obtain ⟨record, isOne, each, tried⟩ := accounts
  exact ⟨record, isOne, each.trans perm, tried⟩

theorem skips_devices (isOpen : record.failed = none) (noneLeft : record.notReached = [])
    (skipped : Skipped) (rest : List Device) :
    (Record.devices { record with skipped := record.skipped ++ [skipped] } ++ rest).Perm
      (record.devices ++ skipped.device :: rest) := by
  simp [Record.devices, isOpen, noneLeft]

theorem rotates_devices (isOpen : record.failed = none) (noneLeft : record.notReached = [])
    (rotated : Rotated) (rest : List Device) :
    (Record.devices { record with rotated := record.rotated ++ [rotated] } ++ rest).Perm
      (record.devices ++ rotated.device :: rest) := by
  have swapped : (rotated.device :: (record.skipped.map (·.device) ++ rest)).Perm
      (record.skipped.map (·.device) ++ rotated.device :: rest) := List.perm_middle.symm
  simpa [Record.devices, isOpen, noneLeft] using swapped.append_left _

theorem takeTurns_accounts (isOpen : record.failed = none) (noneLeft : record.notReached = [])
    (isTried : calls.map (·.state.device) = record.rotated.map (·.device)) :
    (asked.AnswersFrom position states ∧
        Accounts (record.devices ++ states.map (·.device))
          (takeTurns asked position states record calls)) ∨
      (¬ asked.AnswersFrom position states ∧
        (takeTurns asked position states record calls).appended = []) := by
  induction states generalizing position record calls with
  | nil =>
    refine .inl ⟨fun turn isTurn => absurd isTurn (Nat.not_lt_zero turn), ?_⟩
    refine ⟨_, rfl, ?_, ?_⟩
    · exact (List.append_nil _).symm ▸ .refl _
    · simpa [takeTurns, Record.tried, isOpen] using isTried
  | cons state rest ih =>
    rw [answersFrom_cons]
    cases isWindow : holding asked.windows (asked.turns position).at_ with
    | some window =>
      refine .inl ⟨fun isNone => ?_, ?_⟩
      · cases isNone
      · simp only [takeTurns, isWindow, Option.isSome_some, if_true]
        refine ⟨_, rfl, ?_, ?_⟩
        · simp [Record.devices, isOpen, noneLeft]
        · simpa [Record.tried, isOpen] using isTried
    | none =>
      simp only [takeTurns, isWindow, Option.isSome_none, Bool.false_eq_true, if_false,
        forall_const]
      rcases check_cases (asked.turns position) with
        ⟨error, isChecked, raises⟩ | ⟨why, isChecked, noRaise, noRotation⟩ |
          ⟨plan, isChecked, rotates⟩
      · simp only [isChecked]
        exact .inr ⟨fun answers => answers.1 raises, trivial⟩
      · simp only [isChecked]
        have goesOn : (asked.turns position).GoesOn :=
          ⟨noRaise, fun rotates => absurd rotates noRotation⟩
        rcases @ih
          { record with skipped := record.skipped ++ [⟨state.device, why⟩] } calls (position + 1)
          isOpen noneLeft isTried with ⟨answers, accounts⟩ | ⟨noAnswer, isNone⟩
        · exact .inl ⟨⟨noRaise, fun _ => answers⟩,
            accounts.perm (skips_devices isOpen noneLeft _ _)⟩
        · exact .inr ⟨fun answers => noAnswer (answers.2 goesOn), isNone⟩
      · simp only [isChecked]
        cases isRotate : (asked.turns position).rotate with
        | error error =>
          have raises : (asked.turns position).Raises :=
            .inr ⟨rotates.1, .inr ⟨rotates.2.1, rotates.2.2.1,
              .inr ⟨rotates.2.2.2, error, isRotate⟩⟩⟩
          exact .inr ⟨fun answers => answers.1 raises, rfl⟩
        | ok out =>
          have noRaise : ¬ (asked.turns position).Raises := by
            obtain ⟨isFree, isUp, isOn, plan, isPlan, isOk⟩ := rotates
            simp [Turn.Raises, isFree, isUp, isOn, isPlan, isRotate]
          cases out with
          | persisted =>
            have goesOn : (asked.turns position).GoesOn := ⟨noRaise, fun _ => isRotate⟩
            rcases @ih
              { record with rotated := record.rotated ++ [⟨state.device, asked.who state⟩] }
              (calls ++ [⟨state, (asked.turns position).at_, asked.who state, plan.fingerprint⟩])
              (position + 1) isOpen noneLeft (by simp [isTried]) with
              ⟨answers, accounts⟩ | ⟨noAnswer, isNone⟩
            · exact .inl ⟨⟨noRaise, fun _ => answers⟩,
                accounts.perm (rotates_devices isOpen noneLeft _ _)⟩
            · exact .inr ⟨fun answers => noAnswer (answers.2 goesOn), isNone⟩
          | ended stage ended detail =>
            refine .inl ⟨⟨noRaise, fun goesOn => ?_⟩, ⟨_, rfl, ?_, ?_⟩⟩
            · cases isRotate.symm.trans (goesOn.2 rotates)
            · simp [Record.devices, isOpen, noneLeft]
            · simp [Record.tried, isTried]

/-- **A run that passes its refusals** appends one record that accounts for every
chosen device exactly when no unguarded call raises in a turn it comes to. -/
theorem run_accounts_iff (passed : asked.refused = .ok none) :
    Accounts (asked.chosen.map (·.device)) (run asked) ↔ asked.Answers := by
  unfold Asked.Answers run
  rw [passed]
  simp only
  by_cases noneDue : asked.chosen = []
  · rw [if_pos noneDue, noneDue]
    constructor
    · intro _ turn isTurn
      exact absurd isTurn (Nat.not_lt_zero turn)
    · intro _
      exact ⟨_, rfl, List.Perm.refl _, rfl⟩
  · rw [if_neg noneDue]
    rcases @takeTurns_accounts asked asked.chosen asked.selected [] 0 rfl rfl rfl with
      ⟨answers, accounts⟩ | ⟨noAnswer, isNone⟩
    · exact ⟨fun _ => answers, fun _ => accounts⟩
    · refine ⟨fun accounts => ?_, fun answers => absurd answers noAnswer⟩
      obtain ⟨record, isOne, -⟩ := accounts
      rw [isNone] at isOne
      cases isOne

/-- A device never rotated, and a turn in which nothing holds it back. -/
def fresh (name : Str) : DeviceState :=
  ⟨⟨"lab".ascii, name⟩, "default".ascii, ⟨0, 24, none, none⟩, none, true⟩

def smooth (rotate : Except Str RotateOut) : Turn :=
  ⟨0, .nobody, .ok [], .ok [], .ok ⟨true, "5f1c".ascii, []⟩, rotate⟩

/-- The timer's run over r1 and r2. -/
def routers (turns : Nat → Turn) : Asked :=
  { trigger := .scheduled, actor := [], id := "1-1".ascii, confirmed := none, hash := fun _ => []
    windows := [], started := 0, free := true, prior := [], commits := fun _ => none
    states := [fresh "r1".ascii, fresh "r2".ascii], holds := fun _ => .nobody, turns := turns
    finished := 1 }

/-- r1 is rotated and r2's rotation fails. -/
theorem one_failed_accounts :
    let asked := routers fun turn =>
      smooth (if turn = 0 then .ok .persisted else .ok (.ended "verify".ascii [] []))
    Accounts (asked.chosen.map (·.device)) (run asked) ↔ asked.Answers :=
  run_accounts_iff (by decide +kernel)

/-- r1 is rotated, and reading r2's account line raises: no record is left. -/
theorem plan_raises_unrecorded :
    let asked := routers fun turn =>
      if turn = 0 then smooth (.ok .persisted)
      else { smooth (.ok .persisted) with plan := .error "timed out".ascii }
    asked.refused = .ok none ∧ (run asked).calls.map (·.state.device.name) = ["r1".ascii] ∧
      ¬ Accounts (asked.chosen.map (·.device)) (run asked) := by
  refine ⟨by decide +kernel, by decide +kernel, ?_⟩
  rintro ⟨record, isOne, -⟩
  have isNone : (run (routers fun turn =>
      if turn = 0 then smooth (.ok .persisted)
      else { smooth (.ok .persisted) with plan := .error "timed out".ascii })).appended = [] := by
    decide +kernel
  cases isNone.symm.trans isOne

end Nmas.Rotation
