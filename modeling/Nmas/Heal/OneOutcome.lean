import Nmas.Heal.Marks

/-!
Contract: a decision has one outcome, and no live act's decision is found.

Owns: the careful steps of an act, a withdrawal, a find and a reap, every run of
them, and of all steps that one call carries a decision.
-/

namespace Nmas.Heal.Act

open Nmas.Text List
open Nmas.Os (Flock)
open Nmas.Log.Machine (run run_keeps Along)

variable {state next : State} {job other process : Nat} {task : Task} {acting : Acting}
  {rows : List Row} {decision : Str} {turn : Turn} {drawn : Str}

/-- What a job's own careful step leaves: the others' marks, and its own. -/
structure Clean (job : Nat) (state next : State) : Prop where
  neat : Neat job state next
  own : ∀ process task, next.jobs job = some ⟨process, task⟩ → JobMarked next task

theorem Clean.goes {added : Option Row} (sameRows : next.rows = state.rows ++ added.toList)
    (applies : ∀ row ∈ added, ∀ decision, row.applies decision → Applies state job decision)
    (live : ∀ decision inode, task.live = some (decision, inode) →
      state.live job = some (decision, inode) ∨
        (¬ Taken state.rows decision ∧ next.link decision = some inode))
    (link : ∀ decision inode, state.link decision = some inode →
      next.link decision = some inode ∨ Over state decision)
    (marked : JobMarked (next.setTask job process task) task) :
    Clean job state (next.setTask job process task) where
  neat := ⟨⟨added, sameRows, applies⟩, fun decision inode isLive =>
    live decision inode (live_setTask.symm.trans isLive), link⟩
  own other same isJob := by
    rw [State.setTask_job] at isJob
    cases isJob
    exact marked

theorem Clean.stops (sameRows : next.rows = state.rows)
    (link : ∀ decision inode, state.link decision = some inode →
      next.link decision = some inode ∨ Over state decision) :
    Clean job state (next.ends job) where
  neat := by
    refine ⟨⟨none, ?_, by simp⟩, fun decision inode isLive => ?_, link⟩
    · rw [Option.toList_none, append_nil]
      exact sameRows
    · cases live_ends.symm.trans isLive
  own other same isJob := by
    rw [State.ends_job] at isJob
    cases isJob

theorem neat_refl : Neat job state state :=
  ⟨⟨none, by simp, by simp⟩, fun _ _ => .inl, fun _ _ => .inl⟩

theorem Clean.stays (marked : Marked state) : Clean job state state := ⟨neat_refl, marked.jobs job⟩

theorem stage_live {stage : Stage} (isJob : state.jobs job = some ⟨process, .act acting⟩)
    (locked : stage.locked → acting.stage.locked)
    (isLive : (Task.act { acting with stage := stage }).live = some (decision, inode)) :
    state.live job = some (decision, inode) := by
  obtain ⟨took, isLocked, isDecision, isInode⟩ := act_held isLive
  rw [live_act isJob took (locked isLocked), ← isDecision, ← isInode]

theorem Clean.on {stage : Stage} (marked : Marked state)
    (isJob : state.jobs job = some ⟨process, .act acting⟩) (sameRows : next.rows = state.rows)
    (sameLink : next.link = state.link) (locked : stage.locked → acting.stage.locked)
    (undecided : stage.undecided = true → acting.stage.undecided = true) :
    Clean job state (next.setTask job process (.act { acting with stage := stage })) := by
  refine @Clean.goes _ _ _ _ _ none (by simpa using sameRows) (by simp) ?_ ?_ ?_
  · intro decision inode isLive
    exact .inl (stage_live isJob locked isLive)
  · intro decision inode isLink
    rw [sameLink]
    exact .inl isLink
  · intro isUndecided isApplied
    have notApplied : ¬ Applied state.rows acting.decision :=
      marked.jobs job process _ isJob (undecided isUndecided)
    rw [show (next.setTask job process _).rows = next.rows from rfl, sameRows] at isApplied
    exact notApplied isApplied

theorem Clean.records {row : Row} {stage : Stage}
    (isJob : state.jobs job = some ⟨process, .act acting⟩)
    (applies : ∀ decision, row.applies decision → Applies state job decision)
    (locked : stage.locked → acting.stage.locked) (decided : stage.undecided = false) :
    Clean job state
      ((state.append row).setTask job process (.act { acting with stage := stage })) := by
  refine @Clean.goes _ _ _ _ _ (some row) rfl ?_ ?_ ?_ ?_
  · intro one isOne
    cases isOne
    exact applies
  · intro decision inode isLive
    exact .inl (stage_live isJob locked isLive)
  · intro decision inode isLink
    exact .inl isLink
  · intro isUndecided
    cases decided.symm.trans isUndecided

theorem openMark_rows (state : State) (decision : Str) :
    (openMark state decision).1.rows = state.rows := by
  unfold openMark
  split <;> rfl

theorem openMark_link {inode : Nat} {other : Str} (isLink : state.link other = some inode) :
    (openMark state decision).1.link other = some inode := by
  unfold openMark
  split
  · exact isLink
  · rename_i isNone
    by_cases same : other = decision
    · rw [same, isNone] at isLink
      cases isLink
    · simpa [same] using isLink

theorem raised_decided (caller : Caller) : caller.raised.undecided = false := by
  cases caller <;> rfl

theorem unwritten_decided (caller : Caller) : caller.unwritten.undecided = false := by
  cases caller <;> rfl

theorem actStep_clean (marked : Marked state) (careful : Careful state (.goesOn job turn drawn))
    (isJob : state.jobs job = some ⟨process, .act acting⟩) :
    Clean job state (actStep state job process acting turn drawn) := by
  have kept : ActKeeps state job acting := marked.keeps.jobs job process _ isJob
  have own : acting.stage.undecided = true → ¬ Applied state.rows acting.decision :=
    marked.jobs job process _ isJob
  have read := kept.stage
  have isLive := live_act isJob
  have on {next : State} {stage : Stage} (sameRows : next.rows = state.rows)
      (sameLink : next.link = state.link)
      (locked : stage.locked = true → acting.stage.locked = true)
      (undecided : stage.undecided = true → acting.stage.undecided = true) :=
    Clean.on marked isJob sameRows sameLink locked undecided
  have sameLink : ∀ decision inode, state.link decision = some inode →
      state.link decision = some inode ∨ Over state decision := fun _ _ => .inl
  have never {stage : Stage} (decided : stage.undecided = false) :
      stage.undecided = true → acting.stage.undecided = true := by
    intro isUndecided
    cases decided.symm.trans isUndecided
  simp only [Careful, isJob] at careful
  obtain ⟨caller, decision, by_, now, inode, took, incident, stage⟩ := acting
  cases stage with
  | opening =>
    simp only [actStep]
    split
    · exact Clean.stops rfl sameLink
    · refine @Clean.goes _ _ _ _ _ none ?_ (by simp) ?_ ?_ ?_
      · rw [Option.toList_none, append_nil]
        exact openMark_rows state decision
      · intro other inode isHeld
        have notTook : took = false := read
        simp [Task.live, notTook] at isHeld
      · intro other inode isLink
        exact .inl (openMark_link isLink)
      · intro isUndecided
        cases isUndecided
  | locking =>
    simp only [actStep]
    split
    · exact Clean.stops rfl sameLink
    · split
      · refine @Clean.goes _ _ _ _ _ none (append_nil _).symm (by simp) ?_ sameLink ?_
        · intro other inode isHeld
          have notTook : took = false := read
          simp [Task.live, notTook] at isHeld
        · intro isUndecided
          cases isUndecided
      · exact Clean.stops rfl sameLink
  | clearing | marking =>
    simp only [actStep]
    split
    · exact on rfl rfl (fun _ => rfl) (never rfl)
    · exact on rfl rfl (fun _ => rfl) (never rfl)
  | waiting =>
    simp only [actStep]
    split
    · exact on rfl rfl (fun _ => rfl) (never (raised_decided caller))
    · split
      · exact on rfl rfl (fun _ => rfl) (never rfl)
      · exact Clean.stays marked
  | reading =>
    simp only [actStep]
    split
    · exact on rfl rfl (fun _ => rfl) (never (raised_decided caller))
    · split
      · exact on rfl rfl (fun _ => rfl) (never rfl)
      · exact on rfl rfl (fun _ => rfl) (never rfl)
  | taking row =>
    obtain ⟨-, -, ⟨taken, isRow⟩, notTaken⟩ := read
    simp only [actStep]
    split
    · exact on rfl rfl (fun _ => rfl) (never (raised_decided caller))
    · rename_i isTurn
      have isLinked : state.link decision = some inode := careful.resolve_left isTurn
      have noOutcome (other : Str) : row.applies other = false := by
        rw [isRow]
        rfl
      refine @Clean.goes _ _ _ _ _ (some row) rfl ?_ ?_ sameLink ?_
      · intro one isOne other isOutcome
        cases isOne
        cases (noOutcome other).symm.trans isOutcome
      · intro other file isHeld
        cases isHeld
        exact .inr ⟨notTaken, isLinked⟩
      · intro _ isApplied
        rcases any_append.symm.trans isApplied |> (Bool.or_eq_true _ _).mp with before | new
        · exact notTaken (marked.taken decision before)
        · simp [noOutcome] at new
  | returning =>
    simp only [actStep]
    split
    · exact on rfl rfl (fun _ => rfl) (never (raised_decided caller))
    · split
      · exact on rfl rfl (fun _ => rfl) (never rfl)
      · refine @Clean.goes _ _ _ _ _ none (append_nil _).symm (by simp) ?_ sameLink
          fun _ => own rfl
        intro other file isHeld
        obtain ⟨-, -, isDecision, isInode⟩ := act_held isHeld
        refine .inl ?_
        rw [isLive read rfl, ← isDecision, ← isInode]
  | starting =>
    simp only [actStep]
    split
    · exact on rfl rfl (fun _ => rfl) (fun _ => rfl)
    · exact on rfl rfl (fun _ => rfl) (fun _ => rfl)
  | working =>
    simp only [actStep]
    split
    · exact Clean.stays marked
    · exact on rfl rfl (fun _ => rfl) (fun _ => rfl)
    · refine ⟨⟨neat_refl.applies, neat_refl.live, sameLink⟩, fun other task isTask => ?_⟩
      cases isJob.symm.trans isTask
      exact fun _ => own rfl
    · split
      · exact on rfl rfl (fun _ => rfl) (fun _ => rfl)
      · exact Clean.stays marked
    · exact on rfl rfl (fun _ => rfl) (never rfl)
  | applying outcome source =>
    have took : took := read
    have outcomes : ∀ other, (Row.applied decision ⟨outcome, by_, iso now⟩).applies other →
        Applies state job other := by
      intro other isOutcome
      have same : decision = other := by simpa [Row.applies] using isOutcome
      rw [← same]
      exact ⟨kept.took took, own rfl, .inl ⟨inode, isLive took rfl⟩⟩
    simp only [actStep]
    split
    · split
      · exact on rfl rfl (fun _ => rfl) (never rfl)
      · exact on rfl rfl (fun _ => rfl) (never (unwritten_decided caller))
      · exact on rfl rfl (fun _ => rfl) (never rfl)
    · split
      · exact Clean.records isJob outcomes (fun _ => rfl) rfl
      · exact Clean.records isJob outcomes (fun _ => rfl) rfl
  | halting =>
    simp only [actStep]
    split
    · exact on rfl rfl (fun _ => rfl) (never rfl)
    · refine Clean.records isJob ?_ (fun _ => rfl) rfl
      intro other isOutcome
      cases isOutcome
  | closing outcome source =>
    simp only [actStep]
    split
    · split
      · exact on rfl rfl (fun _ => rfl) (never (unwritten_decided caller))
      · exact on rfl rfl (fun _ => rfl) (never rfl)
    · exact on rfl rfl (fun _ => rfl) (never rfl)
  | emptying =>
    simp only [actStep]
    split
    · exact Clean.stops rfl sameLink
    · exact on rfl rfl (fun _ => rfl) (never rfl)
  | unlocking =>
    simp only [actStep]
    split
    · exact Clean.stops rfl sameLink
    · refine on rfl rfl ?_ (never rfl)
      intro locked
      cases locked
  | unlinking =>
    simp only [actStep]
    split
    · exact Clean.stops rfl sameLink
    · rename_i isTurn
      refine Clean.stops rfl fun other file isLink => ?_
      by_cases same : other = decision
      · refine .inr fun one file isHeld => ?_
        have isOld : one < state.next := by
          obtain ⟨process, acting, isJob, -⟩ := act_live isHeld
          by_contra isLater
          rw [marked.keeps.fresh one (Nat.le_of_not_lt isLater)] at isJob
          cases isJob
        rw [same] at isHeld
        cases (lives_live isHeld).symm.trans (careful.resolve_left isTurn one isOld)
      · refine .inl ?_
        simpa [State.unlink, same] using isLink
  | kept => exact Clean.stays marked

theorem withdrawStep_clean {withdrawing : Withdrawing} (marked : Marked state)
    (isJob : state.jobs job = some ⟨process, .withdraw withdrawing⟩) :
    Clean job state (withdrawStep state job process withdrawing turn) := by
  have read : WithdrawKeeps state job withdrawing := marked.keeps.jobs job process _ isJob
  have sameLink : ∀ decision inode, state.link decision = some inode →
      state.link decision = some inode ∨ Over state decision := fun _ _ => .inl
  have noLive {withdrawing : Withdrawing} : ∀ decision inode,
      (Task.withdraw withdrawing).live = some (decision, inode) →
        state.live job = some (decision, inode) ∨
          (¬ Taken state.rows decision ∧ state.link decision = some inode) := by
    intro decision inode isLive
    cases isLive
  obtain ⟨decision, how, by_, now, stage⟩ := withdrawing
  cases stage with
  | waiting =>
    simp only [withdrawStep]
    split
    · exact Clean.stops rfl sameLink
    · split
      · exact @Clean.goes _ _ _ _ _ none (append_nil _).symm (by simp) noLive sameLink trivial
      · exact Clean.stays marked
  | reading =>
    simp only [withdrawStep]
    split
    · exact Clean.stops rfl sameLink
    · split
      · exact @Clean.goes _ _ _ _ _ none (append_nil _).symm (by simp) noLive sameLink trivial
      · exact Clean.stops rfl sameLink
  | withdrawing row =>
    obtain ⟨-, ⟨withdrawn, isRow⟩, -⟩ := read
    simp only [withdrawStep]
    split
    · exact Clean.stops rfl sameLink
    · refine ⟨⟨⟨some row, rfl, ?_⟩, fun other inode isLive => ?_, sameLink⟩, ?_⟩
      · intro one isOne other isOutcome
        cases isOne
        rw [isRow] at isOutcome
        cases isOutcome
      · cases live_ends.symm.trans isLive
      · intro other task isTask
        rw [State.ends_job] at isTask
        cases isTask

/-! ### A find, by itself and in a reap -/

theorem openTakes_open (isOpen : decision ∈ openTakes rows) : ¬ Applied rows decision := by
  obtain ⟨record, isRecord, rfl⟩ := mem_map.mp isOpen
  obtain ⟨isDecided, isFound⟩ := mem_filter.mp isRecord
  have isNone : record.applied.isNone := (of_decide_eq_true isFound).2.2
  have ends := (decisions_taken isDecided).2
  rw [Option.isNone_iff_eq_none.mp isNone] at ends
  intro isApplied
  obtain ⟨row, isRow, isOutcome⟩ := any_eq_true.mp isApplied
  have isEnd : row.ends record.id := by
    cases row with
    | applied id applied => exact isOutcome
    | _ => cases isOutcome
  have isEnded : rows.any (Row.ends record.id) := any_eq_true.mpr ⟨row, isRow, isEnd⟩
  cases ends.trans isEnded

theorem findStep_marked {finding : Finding} (marked : Marked state)
    (isFinding : FindMarked state finding) :
    FindMarked state (findStep state job finding turn).2 := by
  have overs {ended : List (Str × Bool)} {decision : Str} {left : Bool}
      (isOver : ∀ one ∈ ended, Over state one.1) (isEnded : Over state decision) :
      ∀ one ∈ ended ++ [(decision, left)], Over state one.1 := by
    intro one isOne
    rcases mem_append.mp isOne with before | isLast
    · exact isOver one before
    · rw [mem_singleton.mp isLast]
      exact isEnded
  cases finding with
  | listing =>
    simp only [findStep]
    split
    · trivial
    · simp [FindMarked]
  | opening rest ended =>
    cases rest with
    | nil =>
      simp only [findStep]
      split
      · simp [FindMarked]
      · exact isFinding
    | cons decision rest =>
      simp only [findStep]
      split
      · trivial
      · split
        · rename_i noLink
          refine overs isFinding fun one inode isLive => ?_
          cases noLink.symm.trans (marked.linked one decision inode isLive)
        · rename_i inode isLink
          refine ⟨fun one file isLive => ?_, isFinding⟩
          have linked := marked.linked one decision file isLive
          rw [isLink, Option.some_inj] at linked
          exact linked.symm
  | probing decision inode rest ended =>
    obtain ⟨isProbed, isOver⟩ := isFinding
    simp only [findStep]
    split
    · trivial
    · split
      · rename_i lock isShared
        refine ⟨fun one file isLive => ?_, isOver⟩
        have held := (marked.keeps.lock_live isLive).1
        rw [isProbed one file isLive, Flock.lockShared_free isShared] at held
        cases held
      · exact isOver
  | looking decision inode rest ended =>
    obtain ⟨isEnded, isOver⟩ := isFinding
    simp only [findStep]
    split
    · trivial
    · exact overs isOver isEnded
  | relisting ended =>
    simp only [findStep]
    split
    · trivial
    · exact fun one isOne => isFinding one (mem_filter.mp isOne).1
  | answered found => exact isFinding
  | unreadable => trivial

theorem findStep_left {finding : Finding} {found : List (Str × Bool)} (marked : Marked state)
    (isFinding : FindMarked state finding) (isSearching : ∀ found, finding ≠ .answered found)
    (isAnswer : (findStep state job finding turn).2 = .answered found) : Left state found := by
  have isMarked := @findStep_marked _ job turn _ marked isFinding
  rw [isAnswer] at isMarked
  refine fun one isOne => ⟨isMarked one isOne, ?_⟩
  cases finding with
  | listing | looking decision inode rest ended =>
    simp only [findStep] at isAnswer
    split at isAnswer <;> cases isAnswer
  | opening rest ended =>
    cases rest with
    | nil =>
      simp only [findStep] at isAnswer
      split at isAnswer
      · cases isAnswer
        cases isOne
      · cases isAnswer
    | cons decision rest =>
      simp only [findStep] at isAnswer
      split at isAnswer
      · cases isAnswer
      · split at isAnswer <;> cases isAnswer
  | probing decision inode rest ended =>
    simp only [findStep] at isAnswer
    split at isAnswer
    · cases isAnswer
    · split at isAnswer <;> cases isAnswer
  | relisting ended =>
    simp only [findStep] at isAnswer
    split at isAnswer
    · cases isAnswer
    · cases isAnswer
      exact openTakes_open (of_decide_eq_true (mem_filter.mp isOne).2)
  | answered other => exact absurd rfl (isSearching other)
  | unreadable => cases isAnswer

theorem setTask_fewer (noLive : task.live = none) : Fewer state (state.setTask job process task) where
  rows := rfl
  live other decision inode isLive := by
    by_cases isOwn : other = job
    · subst isOwn
      rw [live_setTask, noLive] at isLive
      cases isLive
    · have same : (state.setTask job process task).live other = state.live other :=
        live_other ((@near_refl state job).setTask) isOwn
      rwa [same] at isLive

theorem Clean.looks (sameRows : next.rows = state.rows) (sameLink : next.link = state.link)
    (noLive : task.live = none) (marked : JobMarked next task) :
    Clean job state (next.setTask job process task) := by
  refine @Clean.goes _ _ _ _ _ none (by simpa using sameRows) (by simp) ?_ ?_ ?_
  · intro decision inode isLive
    cases noLive.symm.trans isLive
  · intro decision inode isLink
    rw [sameLink]
    exact .inl isLink
  · exact (setTask_fewer noLive).keeps marked

theorem Clean.reaps {added : Option Row} {reaping : Reaping}
    (sameRows : next.rows = state.rows ++ added.toList)
    (applies : ∀ row ∈ added, ∀ decision, row.applies decision → Applies state job decision)
    (link : ∀ decision inode, state.link decision = some inode →
      next.link decision = some inode ∨ Over state decision)
    (marked : ReapMarked next reaping.stage) :
    Clean job state (next.setTask job process (.reap reaping)) := by
  refine Clean.goes sameRows applies ?_ link ((setTask_fewer rfl).keeps marked)
  intro decision inode isLive
  cases isLive

theorem reapStep_clean {reaping : Reaping} (marked : Marked state)
    (isJob : state.jobs job = some ⟨process, .reap reaping⟩) :
    Clean job state (reapStep state job process reaping turn drawn) := by
  have kept : ReapKeeps state job reaping := marked.keeps.jobs job process _ isJob
  have isMarked : ReapMarked state reaping.stage := marked.jobs job process _ isJob
  have sameLink : ∀ decision inode, state.link decision = some inode →
      state.link decision = some inode ∨ Over state decision := fun _ _ => .inl
  obtain ⟨by_, now, stage⟩ := reaping
  cases stage with
  | finding find =>
    have found := @findStep_marked _ job turn _ marked isMarked
    obtain ⟨lock, isNext, -⟩ := findStep_state state job find turn
    cases find with
    | answered found =>
      simp only [reapStep]
      split
      · exact Clean.stops rfl sameLink
      · exact Clean.looks rfl rfl rfl trivial
    | unreadable => exact Clean.stops rfl sameLink
    | _ =>
      simp only [reapStep, isNext]
      exact Clean.looks rfl rfl rfl found
  | waiting =>
    simp only [reapStep]
    split
    · exact Clean.stops rfl sameLink
    · split
      · exact Clean.looks rfl rfl rfl ⟨trivial, by simp⟩
      · exact Clean.stays marked
  | checking find =>
    have found := @findStep_marked _ job turn _ marked isMarked.1
    have isLeft {found : List (Str × Bool)} (isSearching : ∀ found, find ≠ .answered found) :=
      @findStep_left _ job turn _ found marked isMarked.1 isSearching
    obtain ⟨lock, isNext, -⟩ := findStep_state state job find turn
    cases find with
    | answered found => exact Clean.looks rfl rfl rfl (isMarked.2 _ rfl)
    | unreadable => exact Clean.stops rfl sameLink
    | _ =>
      simp only [reapStep, isNext]
      exact Clean.looks rfl rfl rfl ⟨found, fun found => isLeft (by simp)⟩
  | recording found =>
    cases found with
    | nil => exact Clean.stops rfl sameLink
    | cons first rest =>
      obtain ⟨decision, left⟩ := first
      obtain ⟨isOver, notApplied⟩ := isMarked (decision, left) (.head _)
      have isRest : Left state rest := fun one isOne => isMarked one (.tail _ isOne)
      have fresh : Left (state.append (.applied decision ⟨.interrupted, by_, iso now⟩)) rest := by
        intro one isOne
        refine ⟨(isRest one isOne).1, fun isApplied => ?_⟩
        rcases any_append.symm.trans isApplied |> (Bool.or_eq_true _ _).mp with before | new
        · exact (isRest one isOne).2 before
        · have same : decision = one.1 := by simpa [Row.applies] using new
          have ids : IdsKeep state.rows (decision :: rest.map Prod.fst) := kept.ids
          refine (nodup_cons.mp ids.distinct).1 ?_
          rw [same]
          exact mem_map_of_mem isOne
      have outcomes : ∀ row ∈ some (Row.applied decision ⟨.interrupted, by_, iso now⟩),
          ∀ other, row.applies other = true → Applies state job other := by
        intro row isRow other isOutcome
        cases isRow
        have same : decision = other := by simpa [Row.applies] using isOutcome
        have ids : IdsKeep state.rows (decision :: rest.map Prod.fst) := kept.ids
        rw [← same]
        exact ⟨ids.taken decision (.head _), notApplied, .inr ⟨kept.locked rfl, isOver⟩⟩
      simp only [reapStep]
      split
      · exact Clean.looks rfl rfl rfl isRest
      · split
        · exact Clean.reaps rfl outcomes sameLink ⟨isOver, fresh⟩
        · exact Clean.reaps rfl outcomes sameLink ⟨isOver, fresh⟩
  | halting decision left rest =>
    have fresh : Left (state.append (haltOf drawn decision now)) rest := by
      intro one isOne
      refine ⟨(isMarked.2 one isOne).1, fun isApplied => ?_⟩
      rcases any_append.symm.trans isApplied |> (Bool.or_eq_true _ _).mp with before | new
      · exact (isMarked.2 one isOne).2 before
      · simp [haltOf, Row.applies] at new
    simp only [reapStep]
    split
    · exact Clean.looks rfl rfl rfl isMarked.2
    · refine @Clean.reaps _ _ _ _ (some (haltOf drawn decision now)) _ rfl ?_ sameLink
        ⟨isMarked.1, fresh⟩
      intro row isRow other isOutcome
      cases isRow
      cases isOutcome
  | closing decision left rest =>
    simp only [reapStep]
    split
    · exact Clean.looks rfl rfl rfl isMarked.2
    · split
      · exact Clean.looks rfl rfl rfl isMarked
      · exact Clean.looks rfl rfl rfl isMarked.2
  | unlinking decision rest =>
    simp only [reapStep]
    split
    · exact Clean.looks rfl rfl rfl isMarked.2
    · refine @Clean.reaps _ _ _ _ none _ (append_nil _).symm (by simp) ?_ isMarked.2
      intro other inode isLink
      by_cases same : other = decision
      · rw [same]
        exact .inr isMarked.1
      · refine .inl ?_
        simpa [State.unlink, same] using isLink

/-! ### Runs -/

theorem goesOn_clean (marked : Marked state) (careful : Careful state (.goesOn job turn drawn))
    (isJob : state.jobs job = some ⟨process, task⟩) :
    Clean job state (step state (.goesOn job turn drawn)) := by
  have isMarked := marked.jobs job process task isJob
  simp only [step, isJob]
  cases task with
  | act acting => exact actStep_clean marked careful isJob
  | withdraw withdrawing => exact withdrawStep_clean marked isJob
  | find finding =>
    have found := @findStep_marked _ job turn _ marked isMarked
    obtain ⟨lock, isNext, -⟩ := findStep_state state job finding turn
    simp only [isNext]
    exact Clean.looks rfl rfl rfl found
  | reap reaping => exact reapStep_clean marked isJob

theorem die_fewer (state : State) (process : Nat) : Fewer state (die state process) where
  rows := rfl
  live job decision inode isLive := by
    obtain ⟨one, isJob, isTask⟩ := Option.bind_eq_some_iff.mp isLive
    exact Option.bind_eq_some_iff.mpr ⟨one, (die_some isJob).1, isTask⟩

theorem begins_fewer (noLive : task.live = none) : Fewer state (begins state process task) where
  rows := rfl
  live := (@setTask_fewer _ state.next process _ noLive).live

theorem begins_marked (marked : Marked state) (noLive : task.live = none)
    (keeps : Keeps (begins state process task)) (starts : JobMarked state task) :
    Marked (begins state process task) where
  keeps := keeps
  linked job decision inode isLive :=
    marked.linked job decision inode ((begins_fewer noLive).live job decision inode isLive)
  jobs job other same isJob := by
    refine (begins_fewer noLive).keeps ?_
    by_cases isNew : job = state.next
    · subst isNew
      have isTask : (begins state process task).jobs state.next = some ⟨process, task⟩ :=
        Function.update_self ..
      cases isTask.symm.trans isJob
      exact starts
    · have isOld : (begins state process task).jobs job = state.jobs job :=
        Function.update_of_ne isNew _ _
      rw [isOld] at isJob
      exact marked.jobs job other same isJob
  once := marked.once
  taken := marked.taken

/-- **Every careful step of every process.** -/
theorem step_marked (state : State) (event : Event) (marked : Marked state)
    (careful : Careful state event) : Marked (step state event) := by
  have keeps := step_keeps state event marked.keeps
  cases event with
  | act process caller decision by_ now =>
    refine begins_marked marked rfl keeps fun isUndecided => ?_
    cases isUndecided
  | withdraw process decision how by_ now => exact begins_marked marked rfl keeps trivial
  | find process => exact begins_marked marked rfl keeps trivial
  | reap process by_ now => exact begins_marked marked rfl keeps trivial
  | goesOn job turn drawn =>
    cases isJob : state.jobs job with
    | none =>
      simp only [step, isJob]
      exact marked
    | some one =>
      obtain ⟨neat, own⟩ := goesOn_clean marked careful isJob
      exact marked.changes (goesOn_moves marked.keeps isJob).near neat keeps own
  | writes row =>
    have writes (noTake : ∀ decision, row.takes decision = false)
        (noOutcome : ∀ decision, row.applies decision = false)
        (keeps : Keeps (state.append row)) : Marked (state.append row) := by
      have near : Near state.next state (state.append row) :=
        near_append fun decision isTake => by
          rw [noTake decision] at isTake
          cases isTake
      have neat : Neat state.next state (state.append row) := by
        refine ⟨⟨some row, rfl, fun one isOne decision isOutcome => ?_⟩, fun _ _ => .inl,
          fun _ _ => .inl⟩
        cases isOne
        cases (noOutcome decision).symm.trans isOutcome
      refine marked.changes near neat keeps fun process task isJob => ?_
      have noJob : (state.append row).jobs state.next = none := marked.keeps.fresh _ le_rfl
      cases noJob.symm.trans isJob
    cases row with
    | decision decided => exact writes (fun _ => rfl) (fun _ => rfl) keeps
    | mark id mark => exact writes (fun _ => rfl) (fun _ => rfl) keeps
    | halt halt => exact writes (fun _ => rfl) (fun _ => rfl) keeps
    | lift id => exact writes (fun _ => rfl) (fun _ => rfl) keeps
    | taken id taken | applied id applied | withdrawn id withdrawn => exact marked
  | dies process =>
    have fewer := die_fewer state process
    exact
      { keeps := keeps
        linked := fun job decision inode isLive =>
          marked.linked job decision inode (fewer.live job decision inode isLive)
        jobs := fun job other task isJob =>
          fewer.keeps (marked.jobs job other task (die_some isJob).1)
        once := marked.once
        taken := marked.taken }

/-- A record in which each decision is taken at most once, has at most one
outcome, and one only where it is taken. -/
structure Once (rows : List Row) : Prop where
  taken : ∀ decision, rows.countP (Row.takes decision) ≤ 1
  applied : ∀ decision, rows.countP (Row.applies decision) ≤ 1
  decided : ∀ decision, Applied rows decision → Taken rows decision

theorem begin_marked {started closed : List Str} {link : Str → Option Nat} {record : Nat → Bool}
    {inodes : Nat} (once : Once rows) :
    Marked (begin_ rows started closed link record inodes) where
  keeps := begin_keeps once.taken
  linked _ _ _ isLive := by cases isLive
  jobs _ _ _ isJob := by cases isJob
  once := once.applied
  taken := once.decided

/-- The decisions a find, by itself or in a reap, answers with. -/
def Task.found : Task → List (Str × Bool)
  | .find (.answered found) | .reap ⟨_, _, .finding (.answered found)⟩
  | .reap ⟨_, _, .checking (.answered found)⟩ => found
  | _ => []

theorem found_over {one : Str × Bool} (marked : JobMarked state task) (isOne : one ∈ task.found) :
    Over state one.1 := by
  unfold Task.found at isOne
  split at isOne
  · exact marked one isOne
  · exact marked one isOne
  · exact marked.1 one isOne
  · cases isOne

/-- Each decision is taken or withdrawn at most once, has at most one outcome, and
is found by none while an act holds the mark it took it under. -/
structure EndsOnce (state : State) : Prop where
  taken : ∀ decision, state.rows.countP (Row.takes decision) ≤ 1
  applied : ∀ decision, state.rows.countP (Row.applies decision) ≤ 1
  found : ∀ job process task, state.jobs job = some ⟨process, task⟩ → ∀ one ∈ task.found,
    ∀ other, state.lives other one.1 = false

theorem Marked.endsOnce (marked : Marked state) : EndsOnce state where
  taken := marked.keeps.once
  applied := marked.once
  found job process task isJob one isOne other := by
    have isOver := found_over (marked.jobs job process task isJob) isOne
    unfold State.lives
    cases isLive : state.live other with
    | none => rfl
    | some live =>
      obtain ⟨decision, inode⟩ := live
      refine decide_eq_false fun same => isOver other inode ?_
      rw [isLive, show decision = one.1 from same]

/-- **Every run of careful steps**, by any number of processes: each decision ends
once, and is found only when its act is over. -/
theorem ends_once {started closed : List Str} {link : Str → Option Nat} {record : Nat → Bool}
    {inodes : Nat} {events : List Event} (once : Once rows)
    (careful : Along step Careful (begin_ rows started closed link record inodes) events) :
    EndsOnce (run step (begin_ rows started closed link record inodes) events) :=
  (Along.keeps step_marked careful (begin_marked once)).endsOnce

/-- A decision to heal, an act on it, and a job's steps that succeed. -/
def decided : Row :=
  .decision ⟨⟨"hi-1".ascii, "spine".ascii, .heal, .auto, none, none, 1, [], [], none⟩,
    "hd-1".ascii, 0⟩

def anAct (process : Nat) : Event := .act process .actOne "hd-1".ascii "heal to intent".ascii 0

def goes (job steps : Nat) : List Event := List.replicate steps (.goesOn job .succeeds [])

def nobody : State := begin_ [] [] [] (fun _ => none) (fun _ => false) 0

/-- An act that heals, found by none while it runs. -/
theorem ends_once_healed :
    let events := .writes decided :: anAct 1 :: goes 0 8 ++ .find 2 :: goes 1 3 ++
      [.goesOn 0 .starts [], .goesOn 0 (.ends .healed) []] ++ goes 0 5
    EndsOnce (run step nobody events) := by
  refine ends_once ⟨?_, ?_, ?_⟩ (by decide +kernel)
  · intro decision
    exact Nat.zero_le _
  · intro decision
    exact Nat.zero_le _
  · intro decision isApplied
    cases isApplied

/-- A second act opens the mark before the first, whose take fails, removes it:
it takes and works under a file with no name, a reap finds its decision
interrupted, and its own outcome is a second one. -/
theorem ends_twice :
    let first := .writes decided :: anAct 1 :: anAct 2 :: goes 0 1 ++ goes 1 1 ++ goes 0 5 ++
      .goesOn 0 .fails [] :: goes 0 2
    let second := goes 1 6 ++ goes 0 1 ++ goes 1 1
    let reaped := .reap 3 "heal to intent".ascii 1 :: goes 2 12
    let healed := [.goesOn 1 .starts [], .goesOn 1 (.ends .healed) []] ++ goes 1 1
    ¬ EndsOnce (run step nobody (first ++ second ++ reaped ++ healed)) := by
  intro first second reaped healed ends
  have twice : (run step nobody (first ++ second ++ reaped ++ healed)).rows.countP
      (Row.applies "hd-1".ascii) = 2 := by
    decide +kernel
  have once := ends.applied "hd-1".ascii
  rw [twice] at once
  exact absurd once (by decide)

/-! ### One call carries a decision -/

/-- A call is past its own take of a decision. -/
def Carries (state : State) (job : Nat) (decision : Str) : Prop :=
  ∃ process acting, state.jobs job = some ⟨process, .act acting⟩ ∧ acting.took = true ∧
    acting.decision = decision

theorem actStep_carries (isJob : state.jobs job = some ⟨process, .act acting⟩)
    (kept : ActKeeps state job acting)
    (carries : Carries (actStep state job process acting turn drawn) job decision) :
    Carries state job decision ∨ ¬ Taken state.rows decision := by
  obtain ⟨other, after, isAfter, took, rfl⟩ := carries
  have stays (isTook : acting.took = true) (same : acting.decision = after.decision) :
      Carries state job after.decision ∨ ¬ Taken state.rows after.decision :=
    .inl ⟨process, acting, isJob, isTook, same⟩
  cases isStage : acting.stage with
  | taking row =>
    have read := kept.stage
    unfold StageKeeps at read
    rw [isStage] at read
    simp only [actStep, isStage] at isAfter
    split at isAfter
    · rw [State.setTask_job] at isAfter
      cases isAfter
      exact stays took rfl
    · rw [State.setTask_job] at isAfter
      cases isAfter
      exact .inr read.2.2.2
  | _ =>
    simp only [actStep, isStage] at isAfter
    repeat' split at isAfter
    all_goals
      simp only [State.setTask_job, State.ends_job, isJob, reduceCtorEq] at isAfter
    all_goals
      cases isAfter
      exact stays took rfl

theorem step_taken (event : Event) (keeps : Keeps state) (taken : Taken state.rows decision) :
    Taken (step state event).rows decision := by
  cases event with
  | goesOn job turn drawn =>
    cases isJob : state.jobs job with
    | none => simpa only [step, isJob] using taken
    | some running => exact (@goesOn_moves _ _ _ _ turn drawn keeps isJob).near.taken taken
  | writes row =>
    cases row with
    | decision decided | mark id mark | halt halt | lift id => exact taken.append
    | taken id taken | applied id applied | withdrawn id withdrawn => assumption
  | _ => exact taken

/-- A call comes to carry a decision by its own step, and only one not taken before. -/
theorem step_carries (event : Event) (keeps : Keeps state)
    (carries : Carries (step state event) job decision) :
    Carries state job decision ∨
      (¬ Taken state.rows decision ∧ ∃ turn drawn, event = .goesOn job turn drawn) := by
  obtain ⟨process, acting, isAfter, took, isDecision⟩ := carries
  have begun {one : Nat} {task : Task}
      (isJob : (begins state one task).jobs job = some ⟨process, .act acting⟩)
      (notTook : task ≠ .act acting) : Carries state job decision := by
    by_cases isNew : job = state.next
    · subst isNew
      rw [show (begins state one task).jobs state.next = _ from Function.update_self ..] at isJob
      cases isJob
      exact absurd rfl notTook
    · exact ⟨process, acting, (Function.update_of_ne isNew _ _).symm.trans isJob, took, isDecision⟩
  cases event with
  | act one caller of by_ now =>
    refine .inl (begun isAfter fun same => ?_)
    cases same
    cases took
  | withdraw one of how by_ now | find one | reap one by_ now => exact .inl (begun isAfter (by simp))
  | writes row => cases row <;> exact .inl ⟨process, acting, isAfter, took, isDecision⟩
  | dies one => exact .inl ⟨process, acting, (die_some isAfter).1, took, isDecision⟩
  | goesOn one turn drawn =>
    by_cases isOwn : job = one
    · subst isOwn
      cases isJob : state.jobs job with
      | none =>
        simp [step, isJob] at isAfter
      | some running =>
        obtain ⟨of, task⟩ := running
        simp only [step, isJob] at isAfter
        cases task with
        | act before =>
          refine (actStep_carries isJob (keeps.jobs _ _ _ isJob)
            ⟨process, acting, isAfter, took, isDecision⟩).imp_right fun notTaken => ?_
          exact ⟨notTaken, turn, drawn, rfl⟩
        | find finding =>
          rw [State.setTask_job] at isAfter
          cases isAfter
        | withdraw withdrawing | reap reaping =>
          simp only [withdrawStep, reapStep] at isAfter
          repeat' split at isAfter
          all_goals
            simp only [State.setTask_job, State.ends_job, isJob] at isAfter
            cases isAfter
    · cases isJob : state.jobs one with
      | none =>
        simp only [step, isJob] at isAfter
        exact .inl ⟨process, acting, isAfter, took, isDecision⟩
      | some running =>
        have same := (@goesOn_moves _ _ _ _ turn drawn keeps isJob).near.jobs job isOwn
        exact .inl ⟨process, acting, same.symm.trans isAfter, took, isDecision⟩

/-- No two calls carry one decision. -/
structure Alone (state : State) : Prop where
  keeps : Keeps state
  same : ∀ decision job other, Carries state job decision → Carries state other decision →
    other = job

/-- A decision is taken, and carried by no call but one. -/
structure TakenBy (job : Nat) (decision : Str) (state : State) : Prop where
  keeps : Keeps state
  taken : Taken state.rows decision
  own : ∀ other, Carries state other decision → other = job

theorem Carries.taken (keeps : Keeps state) (carries : Carries state job decision) :
    Taken state.rows decision := by
  obtain ⟨process, acting, isJob, took, rfl⟩ := carries
  exact (keeps.jobs job process _ isJob).took took

theorem step_takenBy (state : State) (event : Event) (by_ : TakenBy job decision state) :
    TakenBy job decision (step state event) where
  keeps := step_keeps state event by_.keeps
  taken := step_taken event by_.keeps by_.taken
  own other carries := by
    rcases step_carries event by_.keeps carries with carried | ⟨notTaken, -⟩
    · exact by_.own other carried
    · exact absurd by_.taken notTaken

theorem step_alone (state : State) (event : Event) (alone : Alone state) :
    Alone (step state event) where
  keeps := step_keeps state event alone.keeps
  same decision job other isJob isOther := by
    rcases step_carries event alone.keeps isJob with carried | ⟨notTaken, turn, drawn, isStep⟩
    · rcases step_carries event alone.keeps isOther with also | ⟨notTaken, -⟩
      · exact alone.same decision job other carried also
      · exact absurd (carried.taken alone.keeps) notTaken
    · rcases step_carries event alone.keeps isOther with also | ⟨-, _, _, isStep'⟩
      · exact absurd (also.taken alone.keeps) notTaken
      · cases isStep.symm.trans isStep'
        rfl

/-- **A decision is carried out by one call**, over every interleaving of acts,
withdrawals, finds and reaps and every end of a process: it is taken or withdrawn
at most once, and no second call is ever past its take of it. -/
theorem carried_by_one {started closed : List Str} {link : Str → Option Nat} {record : Nat → Bool}
    {inodes : Nat} (once : ∀ decision, rows.countP (Row.takes decision) ≤ 1)
    (before after : List Event) :
    let earlier := run step (begin_ rows started closed link record inodes) before
    (∀ decision, earlier.rows.countP (Row.takes decision) ≤ 1) ∧
      ∀ decision job other, Carries earlier job decision →
        Carries (run step earlier after) other decision → other = job := by
  intro earlier
  have alone : Alone earlier := by
    refine run_keeps step_alone before ⟨begin_keeps once, fun decision job other isJob => ?_⟩
    obtain ⟨process, acting, isJob, -⟩ := isJob
    cases isJob
  refine ⟨alone.keeps.once, fun decision job other isJob => ?_⟩
  have by_ : TakenBy job decision earlier :=
    ⟨alone.keeps, isJob.taken alone.keeps, fun other => alone.same decision job other isJob⟩
  exact (run_keeps step_takenBy after by_).own other

/-- Two acts on one decision: the second takes nothing. -/
theorem carried_once :
    let first := run step nobody (.writes decided :: anAct 1 :: anAct 2 :: goes 0 7)
    Carries first 0 "hd-1".ascii ∧
      ∀ other, Carries (run step first (goes 1 9)) other "hd-1".ascii → other = 0 := by
  intro first
  have carries : Carries first 0 "hd-1".ascii := ⟨1, _, by rfl, by rfl, by rfl⟩
  exact ⟨carries, fun other =>
    (carried_by_one (fun _ => Nat.zero_le _) _ (goes 1 9)).2 _ 0 other carries⟩

end Nmas.Heal.Act
