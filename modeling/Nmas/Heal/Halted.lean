import Nmas.Heal.Unsure

/-!
Contract: a heal that may have left a device changed halts the network.

Owns: what a step of one job leaves of what it is to write, by each job's own
steps, and every run of prompt steps.
-/

namespace Nmas.Heal.Act

open Nmas.Text List
open Nmas.Log.Machine (run Along)

variable {state next : State} {job other process : Nat} {task : Task} {acting : Acting}
  {rows : List Row} {row : Row} {decision : Str} {turn : Turn} {drawn : Str}

/-! ### What a step of one job pays -/

structure Pays (job : Nat) (task : Task) (state next : State) : Prop where
  rows : ∃ added : Option Row, next.rows = state.rows ++ added.toList ∧
    (∀ row ∈ added, row.decided? = none ∧
      ∀ decision ∈ next.started, row.unsure decision = true →
        ∃ process task, next.jobs job = some ⟨process, task⟩ ∧ task.toHalt = some decision) ∧
    ∀ decision, task.toHalt = some decision → Unsure state decision →
      ∃ row ∈ added, row.haltsFor decision = true
  started : ∀ decision ∈ next.started, decision ∈ state.started ∨ ¬ Applied next.rows decision
  closed : ∀ incident ∈ state.closed, incident ∈ next.closed
  closes : ∀ decision, task.toClose = some decision → Unsure state decision →
    incidentOf state.rows decision ∈ next.closed ∨
      ∃ process task, next.jobs job = some ⟨process, task⟩ ∧ task.toClose = some decision
  acts : ∀ process acting, next.jobs job = some ⟨process, .act acting⟩ →
    acting.stage.past = true → Knows next.rows acting

theorem notHere_of_other (noDecision : row.decided? = none) :
    ∀ decided, row = .decision decided → decided.id ≠ decision := by
  rintro decided rfl
  cases noDecision

theorem HaltedSince.grows {added : Option Row} (since : HaltedSince rows decision)
    (sure : ∀ row ∈ added, row.unsure decision = false) :
    HaltedSince (rows ++ added.toList) decision := by
  cases added with
  | none => simpa using since
  | some row => exact since.append (sure row rfl)

theorem Owed.changes (owed : Owed state) (near : Near job state next) (keeps : Keeps next)
    (isJob : state.jobs job = some ⟨process, task⟩) (pays : Pays job task state next) :
    Owed next := by
  obtain ⟨added, isNext, adds, paysHalt⟩ := pays.rows
  have sameIncident (decision : Str) :
      incidentOf next.rows decision = incidentOf state.rows decision := by
    rw [isNext]
    cases added with
    | none => rw [Option.toList_none, append_nil]
    | some row => exact incidentOf_append (notHere_of_other (adds row rfl).1)
  have othersDue {writes : Task → Option Str} {decision : Str}
      (due : Due writes state decision) :
      Due writes next decision ∨ writes task = some decision := by
    obtain ⟨other, process, otherTask, isOther, writesIt⟩ := due
    by_cases isOwn : other = job
    · rw [isOwn, isJob] at isOther
      cases isOther
      exact .inr writesIt
    · exact .inl ⟨other, process, otherTask, (near.jobs other isOwn).trans isOther, writesIt⟩
  -- A halt is due from the outcome's row on, until a row halts.
  have grows {decision : Str} (isStarted : decision ∈ next.started)
      (since : HaltedSince state.rows decision) :
      HaltedSince next.rows decision ∨ Due Task.toHalt next decision := by
    by_cases isUnsure : ∃ row ∈ added, row.unsure decision = true
    · obtain ⟨row, isRow, writes⟩ := isUnsure
      obtain ⟨process, task, isNextJob, toHalt⟩ := (adds row isRow).2 decision isStarted writes
      exact .inr ⟨job, process, task, isNextJob, toHalt⟩
    · rw [isNext]
      refine .inl (since.grows fun row isRow => ?_)
      exact Bool.eq_false_iff.mpr fun isIt => isUnsure ⟨row, isRow, isIt⟩
  constructor
  · exact keeps
  · intro other process acting isOther isPast
    by_cases isOwn : other = job
    · rw [isOwn] at isOther
      exact pays.acts process acting isOther isPast
    · rw [near.jobs other isOwn] at isOther
      have knows := owed.acts other process acting isOther isPast
      rw [isNext]
      cases added with
      | none => simpa using knows
      | some row => exact knows.append (notHere_of_other (adds row rfl).1)
  · intro decision isStarted
    rcases pays.started decision isStarted with before | notApplied
    · rcases owed.halts decision before with since | due
      · exact grows isStarted since
      · rcases othersDue due with still | own
        · exact .inr still
        · by_cases isUnsure : Unsure state decision
          · obtain ⟨row, isRow, isHalt⟩ := paysHalt decision own isUnsure
            rw [isNext, Option.mem_def.mp isRow]
            exact .inl (haltedSince_halt isHalt)
          · refine grows isStarted (haltedSince_of_sure ?_)
            exact Bool.eq_false_iff.mpr fun isIt => isUnsure ⟨before, isIt⟩
    · refine .inl (haltedSince_of_sure (Bool.eq_false_iff.mpr fun isIt => notApplied ?_))
      obtain ⟨row, isRow, isUnsure⟩ := any_eq_true.mp isIt
      exact any_eq_true.mpr ⟨row, isRow, applies_of_unsure isUnsure⟩
  · rintro decision ⟨isStarted, isUnsure⟩
    obtain ⟨row, isRow, writes⟩ := any_eq_true.mp isUnsure
    have applied : Applied next.rows decision :=
      any_eq_true.mpr ⟨row, isRow, applies_of_unsure writes⟩
    have before := (pays.started decision isStarted).resolve_right (not_not_intro applied)
    rw [sameIncident]
    rw [isNext] at isRow
    rcases mem_append.mp isRow with old | isAdded
    · have wasUnsure : Unsure state decision := ⟨before, any_eq_true.mpr ⟨row, old, writes⟩⟩
      rcases owed.closes decision wasUnsure with isClosed | due
      · exact .inl (pays.closed _ isClosed)
      · rcases othersDue due with still | own
        · exact .inr still
        · refine (pays.closes decision own wasUnsure).imp_right fun paid => ?_
          obtain ⟨process, task, isNextJob, toClose⟩ := paid
          exact ⟨job, process, task, isNextJob, toClose⟩
    · obtain ⟨process, task, isNextJob, toHalt⟩ :=
        (adds row (Option.mem_toList.mp isAdded)).2 decision isStarted writes
      exact .inr ⟨job, process, task, isNextJob, toClose_of_toHalt toHalt⟩

def Paid (state : State) (task : Task) : Prop :=
  ∀ decision, task.toClose = some decision → ¬ Unsure state decision

theorem paid_of_none (owesNone : task.toClose = none) : Paid state task := by
  intro decision toClose
  cases owesNone.symm.trans toClose

theorem paid_of_owes (isJob : state.jobs job = some ⟨process, task⟩)
    (owes : state.owes job = false) : Paid state task := by
  intro decision toClose isUnsure
  have isOwed : state.owes job := by
    unfold State.owes
    rw [isJob]
    show task.toClose.any _ = true
    rw [toClose]
    exact decide_eq_true isUnsure
  cases owes.symm.trans isOwed

theorem Pays.quiet {added : Option Row} (sameRows : next.rows = state.rows ++ added.toList)
    (plain : ∀ row ∈ added, row.decided? = none ∧ ∀ decision, row.unsure decision = false)
    (sameStarted : next.started = state.started) (sameClosed : next.closed = state.closed)
    (paid : Paid state task)
    (acts : ∀ process acting, next.jobs job = some ⟨process, .act acting⟩ →
      acting.stage.past → Knows next.rows acting) : Pays job task state next where
  rows := by
    refine ⟨added, sameRows, fun row isRow => ⟨(plain row isRow).1, ?_⟩, ?_⟩
    · intro decision _ isUnsure
      cases ((plain row isRow).2 decision).symm.trans isUnsure
    · intro decision toHalt isUnsure
      exact absurd isUnsure (paid decision (toClose_of_toHalt toHalt))
  started decision isStarted := by
    rw [sameStarted] at isStarted
    exact .inl isStarted
  closed incident isClosed := by
    rw [sameClosed]
    exact isClosed
  closes decision toClose isUnsure := absurd isUnsure (paid decision toClose)
  acts := acts

theorem Pays.stops (sameRows : next.rows = state.rows) (sameStarted : next.started = state.started)
    (sameClosed : next.closed = state.closed) (paid : Paid state task) :
    Pays job task state (next.ends job) := by
  refine @Pays.quiet _ _ _ _ none ?_ (by simp) sameStarted sameClosed paid ?_
  · rw [Option.toList_none, append_nil]
    exact sameRows
  · intro process acting isJob
    rw [State.ends_job] at isJob
    cases isJob

theorem Pays.on {stage : Stage} (sameRows : next.rows = state.rows)
    (sameStarted : next.started = state.started) (sameClosed : next.closed = state.closed)
    (paid : Paid state (.act acting))
    (past : stage.past → Knows state.rows { acting with stage := stage }) :
    Pays job (.act acting) state
      (next.setTask job process (.act { acting with stage := stage })) := by
  refine @Pays.quiet _ _ _ _ none ?_ (by simp) sameStarted sameClosed paid ?_
  · rw [Option.toList_none, append_nil]
    exact sameRows
  · intro other one isJob isPast
    rw [State.setTask_job] at isJob
    cases isJob
    show Knows next.rows _
    rw [sameRows]
    exact past isPast

theorem openMark_effects (state : State) (decision : Str) :
    (openMark state decision).1.rows = state.rows ∧
      (openMark state decision).1.started = state.started ∧
      (openMark state decision).1.closed = state.closed := by
  unfold openMark
  split <;> exact ⟨rfl, rfl, rfl⟩

theorem raised_notPast (caller : Caller) : caller.raised.past = false := by
  cases caller <;> rfl

theorem unwritten_notPast (caller : Caller) : caller.unwritten.past = false := by
  cases caller <;> rfl

theorem knows_of_find {record : Record} {acting : Acting}
    (isFound : findDecision rows acting.decision = some record)
    (isIncident : acting.incident = record.incident)
    (named : ∃ row ∈ rows, row.of = some acting.decision)
    (isOwn : ∀ source, acting.stage ≠ .applying .interrupted source) : Knows rows acting := by
  refine ⟨?_, named, isOwn⟩
  rw [isIncident, incidentOf, isFound]
  rfl

theorem named_of_taken (taken : Taken rows decision) : ∃ row ∈ rows, row.of = some decision := by
  obtain ⟨row, isRow, takes⟩ := any_eq_true.mp taken
  refine ⟨row, isRow, ?_⟩
  cases row with
  | taken id taken | withdrawn id withdrawn => exact congrArg some (of_decide_eq_true takes)
  | _ => cases takes

theorem Pays.records {outcome : Ended} {by_ : Str} {at_ : Stamp} {stage : Stage}
    (owesNone : (Task.act acting).toClose = none)
    (toHalt : outcome.halts → stage = .halting)
    (knows : Knows state.rows { acting with stage := stage }) :
    Pays job (.act acting) state
      ((state.append (.applied acting.decision ⟨outcome, by_, at_⟩)).setTask job process
        (.act { acting with stage := stage })) where
  rows := by
    refine ⟨some (.applied acting.decision ⟨outcome, by_, at_⟩), rfl, ?_, ?_⟩
    · intro row isRow
      cases isRow
      refine ⟨rfl, fun decision _ isUnsure => ?_⟩
      obtain ⟨isDecision, halts⟩ := (Bool.and_eq_true _ _).mp isUnsure
      refine ⟨process, _, State.setTask_job, ?_⟩
      rw [toHalt halts, ← of_decide_eq_true isDecision]
      rfl
    · intro decision isDue
      cases owesNone.symm.trans (toClose_of_toHalt isDue)
  started decision := .inl
  closed incident := id
  closes decision toClose := by cases owesNone.symm.trans toClose
  acts other one isJob isPast := by
    rw [State.setTask_job] at isJob
    cases isJob
    exact knows.append (fun decided isDecided => by cases isDecided)

theorem actStep_pays (owed : Owed state) (prompt : Prompt state (.goesOn job turn drawn))
    (isJob : state.jobs job = some ⟨process, .act acting⟩) :
    Pays job (.act acting) state (actStep state job process acting turn drawn) := by
  have knows : acting.stage.past → Knows state.rows acting := owed.acts job process acting isJob
  have kept : ActKeeps state job acting := owed.keeps.jobs job process _ isJob
  have never {stage : Stage} {rows : List Row} {acting : Acting} (notPast : stage.past = false) :
      stage.past = true → Knows rows acting := by
    intro isPast
    cases notPast.symm.trans isPast
  have stays (owesNone : (Task.act acting).toClose = none) : Pays job (.act acting) state state :=
    @Pays.quiet _ _ _ _ none (append_nil _).symm (by simp) rfl rfl (paid_of_none owesNone)
      (fun other one isOne => owed.acts job other one isOne)
  obtain ⟨caller, decision, by_, now, inode, took, incident, stage⟩ := acting
  cases stage with
  | opening =>
    simp only [actStep]
    split
    · exact Pays.stops rfl rfl rfl (paid_of_none rfl)
    · obtain ⟨sameRows, sameStarted, sameClosed⟩ := openMark_effects state decision
      refine @Pays.quiet _ _ _ _ none ?_ (by simp) sameStarted sameClosed (paid_of_none rfl) ?_
      · rw [Option.toList_none, append_nil]
        exact sameRows
      · intro other one isOne isPast
        rw [State.setTask_job] at isOne
        cases isOne
        cases isPast
  | locking =>
    simp only [actStep]
    split
    · exact Pays.stops rfl rfl rfl (paid_of_none rfl)
    · split
      · exact Pays.on rfl rfl rfl (paid_of_none rfl) (never rfl)
      · exact Pays.stops rfl rfl rfl (paid_of_none rfl)
  | clearing | marking =>
    simp only [actStep]
    split
    · exact Pays.on rfl rfl rfl (paid_of_none rfl) (never rfl)
    · exact Pays.on rfl rfl rfl (paid_of_none rfl) (never rfl)
  | waiting =>
    simp only [actStep]
    split
    · exact Pays.on rfl rfl rfl (paid_of_none rfl) (never (raised_notPast caller))
    · split
      · exact Pays.on rfl rfl rfl (paid_of_none rfl) (never rfl)
      · exact stays rfl
  | reading =>
    simp only [actStep]
    split
    · exact Pays.on rfl rfl rfl (paid_of_none rfl) (never (raised_notPast caller))
    · split
      · exact Pays.on rfl rfl rfl (paid_of_none rfl) (never rfl)
      · exact Pays.on rfl rfl rfl (paid_of_none rfl) (never rfl)
  | taking row =>
    obtain ⟨-, -, ⟨taken, isRow⟩, -⟩ := kept.stage
    simp only [actStep]
    split
    · exact Pays.on rfl rfl rfl (paid_of_none rfl) (never (raised_notPast caller))
    · refine @Pays.quiet _ _ _ _ (some row) rfl ?_ rfl rfl (paid_of_none rfl) ?_
      · intro one isOne
        cases isOne
        rw [isRow]
        exact ⟨rfl, fun _ => rfl⟩
      · intro other one isOne isPast
        rw [State.setTask_job] at isOne
        cases isOne
        cases isPast
  | returning =>
    have took : took := kept.stage
    have named := named_of_taken (kept.took took)
    simp only [actStep]
    split
    · exact Pays.on rfl rfl rfl (paid_of_none rfl) (never (raised_notPast caller))
    · split
      · exact Pays.on rfl rfl rfl (paid_of_none rfl) (never rfl)
      · rename_i record isFound
        refine @Pays.quiet _ _ _ _ none (append_nil _).symm (by simp) rfl rfl (paid_of_none rfl) ?_
        intro other one isOne isPast
        rw [State.setTask_job] at isOne
        cases isOne
        exact knows_of_find isFound rfl named (by cases caller <;> simp)
  | starting =>
    simp only [actStep]
    split
    · exact Pays.on rfl rfl rfl (paid_of_none rfl) (fun _ => (knows rfl).goes (by simp))
    · exact Pays.on rfl rfl rfl (paid_of_none rfl) (fun _ => (knows rfl).goes (by simp))
  | working =>
    simp only [actStep]
    split
    · exact stays rfl
    · exact Pays.on rfl rfl rfl (paid_of_none rfl) (fun _ => (knows rfl).goes (by simp))
    · have notOver := prompt.2 rfl
      refine ⟨⟨none, (append_nil _).symm, by simp, ?_⟩, ?_, fun _ => id, ?_,
        fun other one isOne => owed.acts job other one isOne⟩
      · intro decision isDue
        cases isDue
      · intro other isStarted
        rcases mem_append.mp isStarted with before | isNew
        · exact .inl before
        · rw [mem_singleton.mp isNew]
          refine .inr fun isApplied => ?_
          have isOver : state.overtaken job := by
            unfold State.overtaken
            rw [isJob]
            exact isApplied
          cases notOver.symm.trans isOver
      · intro decision isDue
        cases isDue
    · split
      · rename_i outcome isOwn
        refine Pays.on rfl rfl rfl (paid_of_none rfl) (fun _ => (knows rfl).goes ?_)
        intro source isSource
        cases isSource
        cases isOwn
      · exact stays rfl
    · exact Pays.on rfl rfl rfl (paid_of_none rfl) (never rfl)
  | applying outcome source =>
    simp only [actStep]
    split
    · split
      · exact Pays.on rfl rfl rfl (paid_of_none rfl) (fun _ => (knows rfl).goes (by simp))
      · exact Pays.on rfl rfl rfl (paid_of_none rfl) (never (unwritten_notPast caller))
      · exact Pays.on rfl rfl rfl (paid_of_none rfl) (never rfl)
    · split
      · exact Pays.records rfl (fun _ => rfl) ((knows rfl).goes (by simp))
      · rename_i notHalting
        refine Pays.records rfl (fun halts => ?_) ((knows rfl).goes (by simp))
        cases outcome with
        | rolledBack => exact absurd (.inl rfl) notHalting
        | failed => exact absurd (.inr rfl) notHalting
        | interrupted => exact absurd rfl ((knows rfl).outcome source)
        | _ => cases halts
  | halting =>
    simp only [actStep]
    split
    · rename_i isFailure
      exact Pays.on rfl rfl rfl (paid_of_owes isJob (prompt.1 isFailure))
        (fun _ => (knows rfl).goes (by simp))
    · refine ⟨⟨some (haltOf drawn decision now), rfl, ?_, ?_⟩, fun _ => .inl, fun _ => id, ?_, ?_⟩
      · intro row isRow
        cases isRow
        exact ⟨rfl, by simp [haltOf, Row.unsure]⟩
      · intro other isDue _
        cases isDue
        exact ⟨_, rfl, by simp [haltOf, Row.haltsFor]⟩
      · intro other isDue _
        exact .inr ⟨process, _, State.setTask_job, isDue⟩
      · intro other one isOne _
        rw [State.setTask_job] at isOne
        cases isOne
        exact ((knows rfl).goes (by simp)).append (fun decided isDecided => by cases isDecided)
  | closing outcome source =>
    simp only [actStep]
    split
    · rename_i isFailure
      have paid := paid_of_owes isJob (prompt.1 isFailure)
      split
      · exact Pays.on rfl rfl rfl paid (never (unwritten_notPast caller))
      · exact Pays.on rfl rfl rfl paid (never rfl)
    · refine ⟨⟨none, (append_nil _).symm, by simp, ?_⟩, fun _ => .inl, ?_, ?_, ?_⟩
      · intro other isDue
        cases isDue
      · intro other isClosed
        exact mem_append_left _ isClosed
      · intro other isDue _
        cases isDue
        rw [← (knows rfl).incident]
        exact .inl (mem_append_right _ (.head _))
      · intro other one isOne isPast
        rw [State.setTask_job] at isOne
        cases isOne
        cases isPast
  | emptying | unlocking =>
    simp only [actStep]
    split
    · exact Pays.stops rfl rfl rfl (paid_of_none rfl)
    · exact Pays.on rfl rfl rfl (paid_of_none rfl) (never rfl)
  | unlinking =>
    simp only [actStep]
    split
    · exact Pays.stops rfl rfl rfl (paid_of_none rfl)
    · exact Pays.stops rfl rfl rfl (paid_of_none rfl)
  | kept => exact stays rfl

theorem withdrawStep_pays {withdrawing : Withdrawing} (owed : Owed state)
    (isJob : state.jobs job = some ⟨process, .withdraw withdrawing⟩) :
    Pays job (.withdraw withdrawing) state (withdrawStep state job process withdrawing turn) := by
  have read : WithdrawKeeps state job withdrawing := owed.keeps.jobs job process _ isJob
  have on {lock : Option Nat} {stage : WithdrawStage} :
      Pays job (.withdraw withdrawing) state
        ({ state with takeLock := lock }.setTask job process
          (.withdraw { withdrawing with stage := stage })) := by
    refine @Pays.quiet _ _ _ _ none (append_nil _).symm (by simp) rfl rfl (paid_of_none rfl) ?_
    intro other one isOne
    rw [State.setTask_job] at isOne
    cases isOne
  have stays : Pays job (.withdraw withdrawing) state state :=
    @Pays.quiet _ _ _ _ none (append_nil _).symm (by simp) rfl rfl (paid_of_none rfl)
      (fun other one isOne => owed.acts job other one isOne)
  obtain ⟨decision, how, by_, now, stage⟩ := withdrawing
  cases stage with
  | waiting =>
    simp only [withdrawStep]
    split
    · exact Pays.stops rfl rfl rfl (paid_of_none rfl)
    · split
      · exact on
      · exact stays
  | reading =>
    simp only [withdrawStep]
    split
    · exact Pays.stops rfl rfl rfl (paid_of_none rfl)
    · split
      · exact @on state.takeLock _
      · exact Pays.stops rfl rfl rfl (paid_of_none rfl)
  | withdrawing row =>
    obtain ⟨-, ⟨withdrawn, isRow⟩, -⟩ := read
    simp only [withdrawStep]
    split
    · exact Pays.stops rfl rfl rfl (paid_of_none rfl)
    · refine @Pays.quiet _ _ _ _ (some row) rfl ?_ rfl rfl (paid_of_none rfl) ?_
      · intro one isOne
        cases isOne
        rw [isRow]
        exact ⟨rfl, fun _ => rfl⟩
      · intro other one isOne
        rw [State.ends_job] at isOne
        cases isOne

theorem Pays.looks {other : Task} (sameRows : next.rows = state.rows)
    (sameStarted : next.started = state.started) (sameClosed : next.closed = state.closed)
    (paid : Paid state task) (noAct : ∀ acting, other ≠ .act acting) :
    Pays job task state (next.setTask job process other) := by
  refine @Pays.quiet _ _ _ _ none ?_ (by simp) sameStarted sameClosed paid ?_
  · rw [Option.toList_none, append_nil]
    exact sameRows
  · intro one acting isOne
    rw [State.setTask_job] at isOne
    cases isOne
    exact absurd rfl (noAct acting)

theorem reapStep_pays {reaping : Reaping} (owed : Owed state)
    (prompt : Prompt state (.goesOn job turn drawn))
    (isJob : state.jobs job = some ⟨process, .reap reaping⟩) :
    Pays job (.reap reaping) state (reapStep state job process reaping turn drawn) := by
  have stays (owesNone : (Task.reap reaping).toClose = none) :
      Pays job (.reap reaping) state state :=
    @Pays.quiet _ _ _ _ none (append_nil _).symm (by simp) rfl rfl (paid_of_none owesNone)
      (fun other one isOne => owed.acts job other one isOne)
  obtain ⟨by_, now, stage⟩ := reaping
  cases stage with
  | finding find =>
    obtain ⟨lock, isNext, -⟩ := findStep_state state job find turn
    cases find with
    | answered found =>
      simp only [reapStep]
      split
      · exact Pays.stops rfl rfl rfl (paid_of_none rfl)
      · exact Pays.looks rfl rfl rfl (paid_of_none rfl) (by simp)
    | unreadable => exact Pays.stops rfl rfl rfl (paid_of_none rfl)
    | _ =>
      simp only [reapStep, isNext]
      exact Pays.looks rfl rfl rfl (paid_of_none rfl) (by simp)
  | waiting =>
    simp only [reapStep]
    split
    · exact Pays.stops rfl rfl rfl (paid_of_none rfl)
    · split
      · exact Pays.looks rfl rfl rfl (paid_of_none rfl) (by simp)
      · exact stays rfl
  | checking find =>
    obtain ⟨lock, isNext, -⟩ := findStep_state state job find turn
    cases find with
    | answered found => exact Pays.looks rfl rfl rfl (paid_of_none rfl) (by simp)
    | unreadable => exact Pays.stops rfl rfl rfl (paid_of_none rfl)
    | _ =>
      simp only [reapStep, isNext]
      exact Pays.looks rfl rfl rfl (paid_of_none rfl) (by simp)
  | recording found =>
    cases found with
    | nil => exact Pays.stops rfl rfl rfl (paid_of_none rfl)
    | cons first rest =>
      obtain ⟨decision, left⟩ := first
      -- The halt is the job's to write where the act had started.
      have records {stage : ReapStage}
          (toHalt : decision ∈ state.started →
            (Task.reap ⟨by_, now, stage⟩).toHalt = some decision) :
          Pays job (.reap ⟨by_, now, .recording ((decision, left) :: rest)⟩) state
            ((state.append (.applied decision ⟨.interrupted, by_, iso now⟩)).setTask job
              process (.reap ⟨by_, now, stage⟩)) := by
        refine ⟨⟨some (.applied decision ⟨.interrupted, by_, iso now⟩), rfl, ?_, ?_⟩,
          fun _ => .inl, fun _ => id, ?_, ?_⟩
        · intro row isRow
          cases isRow
          refine ⟨rfl, fun other isStarted isUnsure => ?_⟩
          have same : decision = other := of_decide_eq_true ((Bool.and_eq_true _ _).mp isUnsure).1
          rw [← same] at isStarted ⊢
          exact ⟨process, _, State.setTask_job, toHalt isStarted⟩
        · intro other isDue
          cases isDue
        · intro other isDue
          cases isDue
        · intro other one isOne
          rw [State.setTask_job] at isOne
          cases isOne
      simp only [reapStep]
      split
      · exact Pays.looks rfl rfl rfl (paid_of_none rfl) (by simp)
      · split
        · exact records fun _ => rfl
        · rename_i notStarted
          exact records fun isStarted => absurd (.inl isStarted) notStarted
  | halting decision left rest =>
    simp only [reapStep]
    split
    · rename_i isFailure
      exact Pays.looks rfl rfl rfl (paid_of_owes isJob (prompt.1 isFailure)) (by simp)
    · refine ⟨⟨some (haltOf drawn decision now), rfl, ?_, ?_⟩, fun _ => .inl, fun _ => id, ?_, ?_⟩
      · intro row isRow
        cases isRow
        exact ⟨rfl, by simp [haltOf, Row.unsure]⟩
      · intro other isDue _
        cases isDue
        exact ⟨_, rfl, by simp [haltOf, Row.haltsFor]⟩
      · intro other isDue _
        exact .inr ⟨process, _, State.setTask_job, isDue⟩
      · intro other one isOne
        rw [State.setTask_job] at isOne
        cases isOne
  | closing decision left rest =>
    have closes {stage : ReapStage} :
        Pays job (.reap ⟨by_, now, .closing decision left rest⟩) state
          ({ state with closed := state.closed ++ [incidentOf state.rows decision] }.setTask job
            process (.reap ⟨by_, now, stage⟩)) := by
      refine ⟨⟨none, (append_nil _).symm, by simp, ?_⟩, fun _ => .inl, ?_, ?_, ?_⟩
      · intro other isDue
        cases isDue
      · intro other isClosed
        exact mem_append_left _ isClosed
      · intro other isDue _
        cases isDue
        exact .inl (mem_append_right _ (.head _))
      · intro other one isOne
        rw [State.setTask_job] at isOne
        cases isOne
    simp only [reapStep]
    split
    · rename_i isFailure
      exact Pays.looks rfl rfl rfl (paid_of_owes isJob (prompt.1 isFailure)) (by simp)
    · split
      · exact closes
      · exact closes
  | unlinking decision rest =>
    simp only [reapStep]
    split
    · exact Pays.looks rfl rfl rfl (paid_of_none rfl) (by simp)
    · exact Pays.looks rfl rfl rfl (paid_of_none rfl) (by simp)

/-! ### Runs -/

theorem goesOn_pays (owed : Owed state) (prompt : Prompt state (.goesOn job turn drawn))
    (isJob : state.jobs job = some ⟨process, task⟩) :
    Pays job task state (step state (.goesOn job turn drawn)) := by
  simp only [step, isJob]
  cases task with
  | act acting => exact actStep_pays owed prompt isJob
  | withdraw withdrawing => exact withdrawStep_pays owed isJob
  | find finding =>
    obtain ⟨lock, isNext, -⟩ := findStep_state state job finding turn
    simp only [isNext]
    exact Pays.looks rfl rfl rfl (paid_of_none rfl) (by simp)
  | reap reaping => exact reapStep_pays owed prompt isJob

theorem Due.stays {writes : Task → Option Str} (due : Due writes state decision)
    (jobs : ∀ job one, state.jobs job = some one → next.jobs job = some one) :
    Due writes next decision := by
  obtain ⟨job, process, task, isJob, isDue⟩ := due
  exact ⟨job, process, task, jobs job _ isJob, isDue⟩

theorem begins_owed (owed : Owed state) (keeps : Keeps (begins state process task))
    (starts : ∀ acting, task = .act acting → acting.stage.past = false) :
    Owed (begins state process task) := by
  have stay : ∀ job one, state.jobs job = some one →
      (begins state process task).jobs job = some one := by
    intro job one isJob
    have isOld : job ≠ state.next := by
      rintro rfl
      cases (owed.keeps.fresh _ le_rfl).symm.trans isJob
    exact (Function.update_of_ne isOld _ _).trans isJob
  refine ⟨keeps, fun job other acting isJob isPast => ?_, fun decision isStarted => ?_,
    fun decision isUnsure => ?_⟩
  · by_cases isNew : job = state.next
    · rw [isNew] at isJob
      have isTask : (begins state process task).jobs state.next = some ⟨process, task⟩ :=
        Function.update_self ..
      cases isTask.symm.trans isJob
      cases (starts acting rfl).symm.trans isPast
    · have isOld : (begins state process task).jobs job = state.jobs job :=
        Function.update_of_ne isNew _ _
      exact owed.acts job other acting (isOld.symm.trans isJob) isPast
  · exact (owed.halts decision isStarted).imp_right fun due => due.stays stay
  · exact (owed.closes decision isUnsure).imp_right fun due => due.stays stay

theorem append_owed (owed : Owed state) (keeps : Keeps (state.append row))
    (isSure : ∀ decision, row.unsure decision = false)
    (isNew : ∀ decided, row = .decision decided →
      ∀ other ∈ state.rows, other.of ≠ some decided.id) : Owed (state.append row) := by
  have notHere {decision : Str} (named : ∃ row ∈ state.rows, row.of = some decision) :
      ∀ decided, row = .decision decided → decided.id ≠ decision := by
    rintro decided isDecided rfl
    obtain ⟨other, isOther, isOf⟩ := named
    exact isNew decided isDecided other isOther isOf
  refine ⟨keeps, fun job other acting isJob isPast => ?_, fun decision isStarted => ?_, ?_⟩
  · have knows := owed.acts job other acting isJob isPast
    exact knows.append (notHere knows.named)
  · refine (owed.halts decision isStarted).imp (fun since => ?_) (fun due => due.stays fun _ _ => id)
    exact since.append (isSure decision)
  · rintro decision ⟨isStarted, isUnsure⟩
    have before : state.rows.any (Row.unsure decision) := by
      have either := any_append.symm.trans isUnsure
      rwa [any_cons, isSure, any_nil, Bool.or_false, Bool.or_false] at either
    obtain ⟨outcome, isOutcome, writes⟩ := any_eq_true.mp before
    have named : ∃ row ∈ state.rows, row.of = some decision := by
      refine ⟨outcome, isOutcome, ?_⟩
      cases outcome with
      | applied id applied =>
        exact congrArg some (of_decide_eq_true ((Bool.and_eq_true _ _).mp writes).1)
      | _ => cases writes
    rw [show (state.append row).rows = state.rows ++ [row] from rfl,
      incidentOf_append (notHere named)]
    exact (owed.closes decision ⟨isStarted, before⟩).imp_right fun due => due.stays fun _ _ => id

theorem die_owed (owed : Owed state) (keeps : Keeps (die state process))
    (prompt : Prompt state (.dies process)) : Owed (die state process) := by
  -- Only a job with nothing to write ends.
  have lives {writes : Task → Option Str} {decision : Str}
      (toClose : ∀ task, writes task = some decision → task.toClose = some decision)
      (due : Due writes state decision) (isUnsure : Unsure state decision) :
      Due writes (die state process) decision := by
    obtain ⟨job, other, task, isJob, isDue⟩ := due
    have isOther : ofProcess state process job = false := by
      refine Bool.eq_false_iff.mpr fun isOwn => ?_
      have isOld : job < state.next := by
        by_contra isLater
        cases (owed.keeps.fresh job (Nat.le_of_not_lt isLater)).symm.trans isJob
      exact paid_of_owes isJob (prompt job isOld isOwn) decision (toClose task isDue) isUnsure
    refine ⟨job, other, task, Option.filter_eq_some_iff.mpr ⟨isJob, ?_⟩, isDue⟩
    unfold ofProcess at isOther
    rw [isJob] at isOther
    simpa using isOther
  refine ⟨keeps, fun job other acting isJob => ?_, fun decision isStarted => ?_,
    fun decision isUnsure => ?_⟩
  · exact owed.acts job other acting (die_some isJob).1
  · by_cases isUnsure : Unsure state decision
    · exact (owed.halts decision isStarted).imp_right fun due =>
        lives (fun _ => toClose_of_toHalt) due isUnsure
    · refine .inl (haltedSince_of_sure ?_)
      exact Bool.eq_false_iff.mpr fun isIt => isUnsure ⟨isStarted, isIt⟩
  · exact (owed.closes decision isUnsure).imp_right fun due => lives (fun _ => id) due isUnsure

/-- **Every prompt step of every process.** -/
theorem step_owed (state : State) (event : Event) (owed : Owed state)
    (prompt : Prompt state event) : Owed (step state event) := by
  have keeps := step_keeps state event owed.keeps
  cases event with
  | act process caller decision by_ now =>
    refine begins_owed owed keeps fun acting isAct => ?_
    cases isAct
    rfl
  | withdraw process decision how by_ now => exact begins_owed owed keeps (by simp)
  | find process => exact begins_owed owed keeps (by simp)
  | reap process by_ now => exact begins_owed owed keeps (by simp)
  | goesOn job turn drawn =>
    cases isJob : state.jobs job with
    | none =>
      simp only [step, isJob]
      exact owed
    | some one =>
      exact owed.changes (goesOn_moves owed.keeps isJob).near keeps isJob
        (goesOn_pays owed prompt isJob)
  | writes row =>
    cases row with
    | decision decided =>
      refine append_owed owed keeps (fun _ => rfl) fun other isOther => ?_
      cases isOther
      exact prompt
    | mark id mark | halt halt | lift id => exact append_owed owed keeps (fun _ => rfl) (by simp)
    | taken id taken | applied id applied | withdrawn id withdrawn => exact owed
  | dies process => exact die_owed owed keeps prompt

theorem Owed.halts_all (owed : Owed state) : Halts state := by
  intro record isRecord _ isStarted applied isApplied halts notDue
  have isRow := decisions_applied isRecord isApplied halts
  have isUnsure : Unsure state record.id := by
    refine ⟨isStarted, any_eq_true.mpr ⟨_, isRow, ?_⟩⟩
    simp [Row.unsure, halts]
  have isFound : findDecision state.rows record.id = some record :=
    (Log.find_eq_some_iff (decisions_distinct state.rows)).mpr ⟨isRecord, rfl⟩
  have isIncident : incidentOf state.rows record.id = record.incident := by
    rw [incidentOf, isFound]
    rfl
  refine ⟨isRow, ?_, ?_⟩
  · exact (owed.halts record.id isStarted).resolve_right fun due => notDue due.toClose
  · rw [← isIncident]
    exact (owed.closes record.id isUnsure).resolve_right notDue

/-- **A heal that may have left a device changed halts the network**, in every
state of every run of prompt steps, by any number of processes, from no record. -/
theorem halts_kept {link : Str → Option Nat} {record : Nat → Bool} {inodes : Nat}
    {events : List Event}
    (prompt : Along step Prompt (begin_ [] [] [] link record inodes) events) :
    Halts (run step (begin_ [] [] [] link record inodes) events) := by
  refine Owed.halts_all (Along.keeps step_owed prompt ⟨begin_keeps ?_, ?_, ?_, ?_⟩)
  · intro decision
    exact Nat.zero_le _
  · intro job process acting isJob
    cases isJob
  · intro decision isStarted
    cases isStarted
  · intro decision isUnsure
    cases isUnsure.1

/-- An act that has started and whose process ends: a reap halts the network. -/
def cut : List Event :=
  .writes decided :: anAct 1 :: goes 0 8 ++
    [.goesOn 0 .starts [], .dies 1, .reap 2 "heal to intent".ascii 60] ++ goes 1 14

theorem halts_cut : Halts (run step nobody cut) :=
  halts_kept (by decide +kernel)

/-- The act's halt cannot be written once its outcome is; a reap comes after it. -/
def unhalted : List Event :=
  .writes decided :: anAct 1 :: goes 0 8 ++
    [.goesOn 0 .starts [], .goesOn 0 (.ends .failed) []] ++ goes 0 1 ++ .goesOn 0 .fails [] ::
    goes 0 4 ++ .reap 2 "heal to intent".ascii 60 :: goes 1 3

/-- Nobody comes back to a decision whose outcome is written: the reap finds none,
and nothing halts the network. -/
theorem failed_not_halted : ¬ Halts (run step nobody unhalted) := by
  intro halts
  have read : ∃ record ∈ decisions (run step nobody unhalted).rows, record.taken.isSome = true ∧
      record.id ∈ (run step nobody unhalted).started ∧
        record.applied = some ⟨.failed, "heal to intent".ascii, 0⟩ ∧
          (run step nobody unhalted).rows =
            [decided, .taken record.id ⟨"heal to intent".ascii, 0⟩] ++
              [.applied record.id ⟨.failed, "heal to intent".ascii, 0⟩] := by
    decide +kernel
  obtain ⟨record, isRecord, taken, isStarted, isApplied, isLast⟩ := read
  have keeps : Keeps (run step nobody unhalted) :=
    Nmas.Log.Machine.run_keeps step_keeps unhalted (begin_keeps fun _ => Nat.zero_le _)
  have ended : (run step nobody unhalted).next = 2 ∧
      (run step nobody unhalted).jobs 0 = none ∧ (run step nobody unhalted).jobs 1 = none := by
    decide +kernel
  have notDue : ¬ Due Task.toClose (run step nobody unhalted) record.id := by
    rintro ⟨job, process, task, isJob, -⟩
    match job with
    | 0 => cases ended.2.1.symm.trans isJob
    | 1 => cases ended.2.2.symm.trans isJob
    | job + 2 =>
      have isNone := keeps.fresh (job + 2) (by rw [ended.1]; exact Nat.le_add_left 2 job)
      cases isNone.symm.trans isJob
  obtain ⟨-, since, -⟩ := halts record isRecord taken isStarted _ isApplied rfl notDue
  cases since _ _ [] isLast rfl

end Nmas.Heal.Act
