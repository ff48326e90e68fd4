import Mathlib.Data.List.Infix

/-!
Contract: what a pipeline run guarantees when a stage fails.

`PipelineRunner.run` walks `_STAGE_TABLE` with three failure policies and three
ways out of a handler, captures and rolls back inside the `except` clause, and
writes the audit entry in a `finally`. What the stages do to their own data is a
parameter (`Handlers`); the bookkeeping the runner alone writes is not.

`loop` follows the source and threads the context. `Shape` forgets the context
and says which event sequences a loop over a table can leave; `loop_shape`
connects the two, and the results about order, stopping, success and rollback
are read off `Shape`.
-/

namespace Nmas.Pipeline

open List

/-- A stage of `_STAGE_TABLE`. -/
inductive Stage where
  | netboxQuery
  | templateRender
  | ciGate
  | preSnapshot
  | configDiff
  | deploy
  | postSnapshot
  | verify
  | saveStartup
  | saveGolden
  | auditLog
deriving DecidableEq

def Stage.name : Stage → String
  | .netboxQuery => "netbox_query"
  | .templateRender => "template_render"
  | .ciGate => "ci_gate"
  | .preSnapshot => "pre_snapshot"
  | .configDiff => "config_diff"
  | .deploy => "deploy"
  | .postSnapshot => "post_snapshot"
  | .verify => "verify"
  | .saveStartup => "save_startup"
  | .saveGolden => "save_golden"
  | .auditLog => "audit_log"

/-- What a stage's failure does to the run. -/
inductive OnFailure where
  | abort
  | rollback
  | continue_
deriving DecidableEq

def stageTable : List (Stage × OnFailure) :=
  [(.netboxQuery, .abort), (.templateRender, .abort), (.ciGate, .abort), (.preSnapshot, .abort),
    (.configDiff, .abort), (.deploy, .rollback), (.postSnapshot, .rollback), (.verify, .rollback),
    (.saveStartup, .continue_), (.saveGolden, .continue_), (.auditLog, .abort)]

/-- The stages `_handlers` lists: all but the audit, which has its own call. -/
def handled : List (Stage × OnFailure) := stageTable.take 10

inductive FinalStatus where
  | pending
  | success
  | failed
  | rolledBack
  | rollbackFailed
deriving DecidableEq

/-- The part of the context that only the runner writes. -/
structure Bookkeeping where
  stagesCompleted : List Stage
  stagesFailed : List Stage
  finalStatus : FinalStatus
  error : Option String
deriving DecidableEq

structure PushResult where
  ok : Bool
  skipped : Bool
deriving DecidableEq

/-- `PipelineContext`: what the runner reads, and the rest that stages share. -/
structure Context (Rest : Type) where
  book : Bookkeeping
  pushResults : List (String × PushResult)
  warnings : List String
  rest : Rest

inductive Outcome where
  | returned
  /-- `PipelineStageError`, with its message. -/
  | stageError (message : String)
  /-- Any other exception. -/
  | raised
deriving DecidableEq

/-- How `_stage_rollback` ends. -/
inductive RollbackEnd where
  | restored
  | notRestored
  | raised
deriving DecidableEq

/-- Every behaviour of the stages and of the runner's own calls. Each may do
anything to the context but touch the runner's bookkeeping; the audit does not
write push results either, and swallows its exceptions. -/
structure Handlers (Rest : Type) where
  run : Stage → Context Rest → Outcome × Context Rest
  /-- Is the stage's start recorded without an exception? -/
  note : Stage → Context Rest → Bool
  /-- Does the capture of the failure state return? -/
  capture : Context Rest → Bool × Context Rest
  rollback : Context Rest → RollbackEnd × Context Rest
  auditLog : Context Rest → Context Rest
  run_book : ∀ stage ctx, (run stage ctx).2.book = ctx.book
  capture_book : ∀ ctx, (capture ctx).2.book = ctx.book
  rollback_book : ∀ ctx, (rollback ctx).2.book = ctx.book
  auditLog_book : ∀ ctx, (auditLog ctx).book = ctx.book
  auditLog_pushResults : ∀ ctx, (auditLog ctx).pushResults = ctx.pushResults

/-- What a run does, in order. -/
inductive Event where
  | handler (stage : Stage) (outcome : Outcome)
  | captured (returned : Bool)
  | rolledBack (ending : RollbackEnd)
  | audited
deriving DecidableEq

def Event.stage? : Event → Option Stage
  | .handler stage _ => some stage
  | _ => none

/-- How the loop ends: through its `else`, by `break`, or by an exception. -/
inductive Exit where
  | exhausted
  | broke
  | raised
deriving DecidableEq

/-- `PipelineRunner`. -/
structure Runner (Rest : Type) where
  ctx : Context Rest
  nextExpected : Nat

/-- What the loop leaves behind. -/
structure Course (Rest : Type) where
  events : List Event
  runner : Runner Rest
  exit : Exit

section Definitions

variable {Rest : Type}

def Context.complete (ctx : Context Rest) (stage : Stage) : Context Rest :=
  { ctx with book.stagesCompleted := ctx.book.stagesCompleted ++ [stage] }

def Context.fail (ctx : Context Rest) (stage : Stage) : Context Rest :=
  { ctx with book.stagesFailed := ctx.book.stagesFailed ++ [stage] }

def Context.warn (ctx : Context Rest) (stage : Stage) (message : String) : Context Rest :=
  { ctx with warnings := ctx.warnings ++ [stage.name ++ ": " ++ message] }

def Context.abort (ctx : Context Rest) (message : String) : Context Rest :=
  { ctx with book.error := some message, book.finalStatus := .failed }

def Context.finish (ctx : Context Rest) (status : FinalStatus) : Context Rest :=
  { ctx with book.finalStatus := status }

def Context.attempted (ctx : Context Rest) : Bool :=
  ctx.pushResults ≠ [] || .deploy ∈ ctx.book.stagesCompleted

/-- `_stage_rollback`, with the status it leaves when it returns. -/
def stageRollback (handlers : Handlers Rest) (runner : Runner Rest) : Course Rest :=
  match handlers.rollback runner.ctx with
  | (.restored, ctx) =>
    ⟨[.rolledBack .restored], { runner with ctx := ctx.finish .rolledBack }, .broke⟩
  | (.notRestored, ctx) =>
    ⟨[.rolledBack .notRestored], { runner with ctx := ctx.finish .rollbackFailed }, .broke⟩
  | (.raised, ctx) => ⟨[.rolledBack .raised], { runner with ctx := ctx }, .raised⟩

/-- The end of the `except` clause for a stage whose policy is `rollback`. -/
def repair (handlers : Handlers Rest) (runner : Runner Rest) : Course Rest :=
  match handlers.capture runner.ctx with
  | (false, ctx) => ⟨[.captured false], { runner with ctx := ctx }, .raised⟩
  | (true, ctx) =>
    if ctx.attempted then
      let course := stageRollback handlers { runner with ctx := ctx }
      { course with events := .captured true :: course.events }
    else ⟨[.captured true], { runner with ctx := ctx }, .broke⟩

/-- The loop of `run`, from an entry of the table on. -/
def loop (handlers : Handlers Rest) : List ((Stage × OnFailure) × Nat) → Runner Rest → Course Rest
  | [], runner => ⟨[], runner, .exhausted⟩
  | ((stage, onFailure), index) :: rest, runner =>
    -- `_assert_order` raises outside the inner `try`, and so does `note`.
    if runner.nextExpected ≠ index then ⟨[], runner, .raised⟩
    else if handlers.note stage runner.ctx = false then ⟨[], runner, .raised⟩
    else
      match handlers.run stage runner.ctx with
      | (.returned, ctx) =>
        let course := loop handlers rest ⟨ctx.complete stage, index + 1⟩
        { course with events := .handler stage .returned :: course.events }
      | (.raised, ctx) =>
        ⟨[.handler stage .raised], { runner with ctx := ctx }, .raised⟩
      | (.stageError message, ctx) =>
        match onFailure with
        | .continue_ =>
          let course := loop handlers rest ⟨(ctx.fail stage).warn stage message, index + 1⟩
          { course with events := .handler stage (.stageError message) :: course.events }
        | .abort =>
          ⟨[.handler stage (.stageError message)],
            { runner with ctx := (ctx.fail stage).abort message }, .broke⟩
        | .rollback =>
          let course := repair handlers { runner with ctx := (ctx.fail stage).abort message }
          { course with events := .handler stage (.stageError message) :: course.events }

/-- What `run` leaves behind: the events, the context, and whether it returned
it or let an exception through. -/
structure Result (Rest : Type) where
  events : List Event
  ctx : Context Rest
  returned : Bool

def run (handlers : Handlers Rest) (runner : Runner Rest) : Result Rest :=
  let course := loop handlers handled.zipIdx runner
  let ctx := if course.exit = .exhausted then course.runner.ctx.finish .success
    else course.runner.ctx
  ⟨course.events ++ [.audited], handlers.auditLog ctx, course.exit != .raised⟩

/-- A new runner on a new context. -/
def Runner.start (rest : Rest) : Runner Rest := ⟨⟨⟨[], [], .pending, none⟩, [], [], rest⟩, 0⟩

end Definitions

/-! ### The shape of a run -/

/-- The event sequences a loop over a table can leave, with the way it ends and
whether push results are left at that point. -/
inductive Shape : List (Stage × OnFailure) → Bool → List Event → Exit → Prop
  | exhausted {pushed} : Shape [] pushed [] .exhausted
  /-- Out of order, or the start could not be noted. -/
  | refused {table pushed} : Shape table pushed [] .raised
  | passed {stage onFailure table pushed events exit} (later : Shape table pushed events exit) :
      Shape ((stage, onFailure) :: table) pushed (.handler stage .returned :: events) exit
  | warned {stage message table pushed events exit} (later : Shape table pushed events exit) :
      Shape ((stage, .continue_) :: table) pushed
        (.handler stage (.stageError message) :: events) exit
  | raised {stage onFailure table pushed} :
      Shape ((stage, onFailure) :: table) pushed [.handler stage .raised] .raised
  | aborted {stage message table pushed} :
      Shape ((stage, .abort) :: table) pushed [.handler stage (.stageError message)] .broke
  | captureRaised {stage message table pushed} :
      Shape ((stage, .rollback) :: table) pushed
        [.handler stage (.stageError message), .captured false] .raised
  | nothingPushed {stage message table} :
      Shape ((stage, .rollback) :: table) false
        [.handler stage (.stageError message), .captured true] .broke
  | rolledBack {stage message table pushed ending exit} (stopped : exit ≠ .exhausted) :
      Shape ((stage, .rollback) :: table) pushed
        [.handler stage (.stageError message), .captured true, .rolledBack ending] exit

section Loop

variable {Rest : Type} (handlers : Handlers Rest)

def Context.pushed (ctx : Context Rest) : Bool := ctx.pushResults ≠ []

theorem stageRollback_events (runner : Runner Rest) :
    ∃ ending, (stageRollback handlers runner).events = [.rolledBack ending] ∧
      (stageRollback handlers runner).exit ≠ .exhausted := by
  unfold stageRollback
  split
  · exact ⟨_, rfl, by simp⟩
  · exact ⟨_, rfl, by simp⟩
  · exact ⟨_, rfl, by simp⟩

theorem repair_shape (stage : Stage) (message : String) (table : List (Stage × OnFailure))
    (runner : Runner Rest) :
    Shape ((stage, .rollback) :: table) (repair handlers runner).runner.ctx.pushed
      (.handler stage (.stageError message) :: (repair handlers runner).events)
      (repair handlers runner).exit := by
  unfold repair
  split
  · exact .captureRaised
  · rename_i ctx captured
    split
    · obtain ⟨ending, events, stopped⟩ := stageRollback_events handlers { runner with ctx := ctx }
      simp only [events]
      exact .rolledBack stopped
    · rename_i notAttempted
      have nothing : ctx.pushed = false := by
        simp only [Context.attempted, Bool.or_eq_true, not_or] at notAttempted
        simpa [Context.pushed] using notAttempted.1
      simp only [nothing]
      exact .nothingPushed

/-- **The loop leaves a shape of its table.** -/
theorem loop_shape (table : List (Stage × OnFailure)) (start : Nat) (runner : Runner Rest) :
    Shape table (loop handlers (table.zipIdx start) runner).runner.ctx.pushed
      (loop handlers (table.zipIdx start) runner).events
      (loop handlers (table.zipIdx start) runner).exit := by
  induction table generalizing start runner with
  | nil => exact .exhausted
  | cons entry rest ih =>
    obtain ⟨stage, onFailure⟩ := entry
    rw [zipIdx_cons, loop]
    split_ifs with outOfOrder notNoted
    · exact .refused
    · exact .refused
    · split
      · exact .passed (ih _ _)
      · exact .raised
      · cases onFailure with
        | continue_ => exact .warned (ih _ _)
        | abort => exact .aborted
        | rollback => exact repair_shape handlers stage _ rest _

private theorem stageRollback_not_success {runner : Runner Rest}
    (before : runner.ctx.book.finalStatus ≠ .success) :
    (stageRollback handlers runner).runner.ctx.book.finalStatus ≠ .success := by
  have book := handlers.rollback_book runner.ctx
  unfold stageRollback
  split
  · simp [Context.finish]
  · simp [Context.finish]
  · rename_i ctx ended
    rw [ended] at book
    have sameBook : ctx.book = runner.ctx.book := book
    rwa [sameBook]

private theorem repair_not_success {runner : Runner Rest}
    (before : runner.ctx.book.finalStatus ≠ .success) :
    (repair handlers runner).runner.ctx.book.finalStatus ≠ .success := by
  have book := handlers.capture_book runner.ctx
  unfold repair
  split
  · rename_i ctx captured
    rw [captured] at book
    have sameBook : ctx.book = runner.ctx.book := book
    rwa [sameBook]
  · rename_i ctx captured
    rw [captured] at book
    have sameBook : ctx.book = runner.ctx.book := book
    split
    · exact stageRollback_not_success handlers (by rwa [sameBook])
    · rwa [sameBook]

theorem loop_not_success (table : List ((Stage × OnFailure) × Nat)) (runner : Runner Rest)
    (before : runner.ctx.book.finalStatus ≠ .success) :
    (loop handlers table runner).runner.ctx.book.finalStatus ≠ .success := by
  induction table generalizing runner with
  | nil => exact before
  | cons entry rest ih =>
    obtain ⟨⟨stage, onFailure⟩, index⟩ := entry
    rw [loop]
    split_ifs with outOfOrder notNoted
    · exact before
    · exact before
    · have sameBook : (handlers.run stage runner.ctx).2.book = runner.ctx.book :=
        handlers.run_book stage runner.ctx
      cases ran : handlers.run stage runner.ctx with
      | mk outcome ctx =>
        rw [ran] at sameBook
        have stillBefore : ctx.book.finalStatus ≠ .success := sameBook ▸ before
        cases outcome with
        | returned => exact ih _ stillBefore
        | raised => exact stillBefore
        | stageError message =>
          cases onFailure with
          | continue_ => exact ih _ stillBefore
          | abort => simp [Context.abort]
          | rollback => exact repair_not_success handlers (by simp [Context.abort])

end Loop

/-! ### Read off the shape -/

section Shapes

variable {table : List (Stage × OnFailure)} {pushed : Bool} {events : List Event} {exit : Exit}

theorem Shape.inOrder (shape : Shape table pushed events exit) :
    events.filterMap Event.stage? <+: table.map Prod.fst := by
  induction shape with
  | exhausted | refused => exact nil_prefix
  | passed _ ih | warned _ ih =>
    exact cons_prefix_cons.mpr ⟨rfl, ih⟩
  | raised | aborted | captureRaised | nothingPushed | rolledBack =>
    exact cons_prefix_cons.mpr ⟨rfl, nil_prefix⟩

/-- A handler whose exception ends the loop: anything but a stage error, and a
stage error unless the stage's policy is to continue. -/
def Ends (table : List (Stage × OnFailure)) (stage : Stage) (outcome : Outcome) : Prop :=
  outcome = .raised ∨ outcome ≠ .returned ∧ (stage, OnFailure.continue_) ∉ table

theorem Shape.stops (shape : Shape table pushed events exit) {before after : List Event}
    {stage : Stage} {outcome : Outcome} (split : events = before ++ .handler stage outcome :: after)
    (ends : Ends table stage outcome) : after.filterMap Event.stage? = [] := by
  induction shape generalizing before with
  | exhausted | refused => simp at split
  | passed _ ih | warned _ ih =>
    cases before with
    | nil =>
      obtain ⟨⟨rfl, rfl⟩, _⟩ := by simpa using split
      simp [Ends] at ends
    | cons head before =>
      refine ih (List.cons.inj split).2 ?_
      exact ends.imp_right (And.imp_right fun notListed inRest =>
        notListed (.tail _ inRest))
  | raised | aborted | captureRaised | nothingPushed | rolledBack =>
    -- The handler is the first event, and none of the others is a handler.
    cases before with
    | nil =>
      rw [← (List.cons.inj split).2]
      rfl
    | cons head before => simp [cons_eq_append_iff] at split

theorem Shape.audited_notMem (shape : Shape table pushed events exit) : .audited ∉ events := by
  induction shape with
  | passed _ ih | warned _ ih => simpa using ih
  | _ => simp

/-- When the loop ends through its `else`, every handler of the table ran, and
none that the policy does not let pass has failed. -/
theorem Shape.completed (shape : Shape table pushed events .exhausted) :
    events.filterMap Event.stage? = table.map Prod.fst ∧
      ∀ stage outcome, .handler stage outcome ∈ events →
        outcome ≠ .raised ∧ (outcome = .returned ∨ (stage, OnFailure.continue_) ∈ table) := by
  generalize ending : Exit.exhausted = exit at shape
  induction shape with
  | exhausted => simp
  | refused | raised | aborted | captureRaised | nothingPushed => cases ending
  | rolledBack stopped => exact absurd ending.symm stopped
  | passed _ ih | warned _ ih =>
    obtain ⟨stages, passed⟩ := ih ending
    refine ⟨by simp [Event.stage?, stages], fun stage outcome member => ?_⟩
    rcases mem_cons.mp member with here | later
    · cases here
      simp
    · exact (passed stage outcome later).imp_right (Or.imp_right (mem_cons_of_mem _))

/-- A sequence of events ends with the repair of a stage: its stage error, the
capture, and the rollback unless the capture raised. -/
def EndsInRepair (stage : Stage) (message : String) (events : List Event) : Prop :=
  (∃ before, events = before ++ [.handler stage (.stageError message), .captured false]) ∨
    ∃ before ending, events =
      before ++ [.handler stage (.stageError message), .captured true, .rolledBack ending]

private theorem EndsInRepair.cons {stage : Stage} {message : String}
    (repaired : EndsInRepair stage message events) (event : Event) :
    EndsInRepair stage message (event :: events) := by
  rcases repaired with ⟨before, rfl⟩ | ⟨before, ending, rfl⟩
  · exact .inl ⟨event :: before, rfl⟩
  · exact .inr ⟨event :: before, ending, rfl⟩

theorem Shape.repairs (shape : Shape table true events exit) {stage : Stage} {message : String}
    (failed : .handler stage (.stageError message) ∈ events)
    (policy : ∀ onFailure, (stage, onFailure) ∈ table → onFailure = .rollback) :
    EndsInRepair stage message events := by
  generalize isPushed : true = pushed at shape
  induction shape with
  | exhausted | refused => cases failed
  | raised => simp at failed
  | nothingPushed => cases isPushed
  | passed _ ih =>
    have later := (mem_cons.mp failed).resolve_left (by simp)
    exact (ih later (fun onFailure member => policy onFailure (.tail _ member)) isPushed).cons _
  | warned _ ih =>
    rcases mem_cons.mp failed with here | later
    · cases here
      exact absurd (policy _ mem_cons_self) (by simp)
    · exact (ih later (fun onFailure member => policy onFailure (.tail _ member)) isPushed).cons _
  | aborted =>
    cases mem_singleton.mp failed
    exact absurd (policy _ mem_cons_self) (by simp)
  | captureRaised =>
    cases (mem_cons.mp failed).resolve_right (by simp)
    exact .inl ⟨[], rfl⟩
  | rolledBack =>
    cases (mem_cons.mp failed).resolve_right (by simp)
    exact .inr ⟨[], _, rfl⟩

theorem Shape.raises (shape : Shape table pushed events exit) {stage : Stage}
    (raised : .handler stage .raised ∈ events) :
    exit = .raised ∧ ∃ before, events = before ++ [.handler stage .raised] := by
  induction shape with
  | exhausted | refused => cases raised
  | passed _ ih | warned _ ih =>
    obtain ⟨ended, before, rfl⟩ := ih ((mem_cons.mp raised).resolve_left (by simp))
    exact ⟨ended, _ :: before, rfl⟩
  | raised =>
    cases mem_singleton.mp raised
    exact ⟨rfl, [], rfl⟩
  | aborted | captureRaised | nothingPushed | rolledBack => simp at raised

end Shapes

/-! ### The failure contract -/

section Contract

variable {Rest : Type}

/-- The stages whose failure rolls a push back. -/
def rollbackStages : List Stage := [.deploy, .postSnapshot, .verify]

/-- Handlers run in table order and stop at a failure that ends the run, the
audit runs once, and success means that no abort or rollback stage failed. -/
structure KeepsOrder (result : Result Rest) : Prop where
  inOrder : result.events.filterMap Event.stage? <+: handled.map Prod.fst
  stops : ∀ before stage outcome after, result.events = before ++ .handler stage outcome :: after →
    Ends handled stage outcome → after.filterMap Event.stage? = []
  auditedOnce : result.events.count .audited = 1
  success : result.ctx.book.finalStatus = .success → ∀ stage outcome,
    .handler stage outcome ∈ result.events → (stage, OnFailure.continue_) ∉ handled →
      outcome = .returned

/-- Whenever a push was attempted and a rollback stage did not complete, the
failure state is captured and then the rollback runs. -/
def RepairsEveryFailure (result : Result Rest) : Prop :=
  result.ctx.pushResults ≠ [] →
    (∃ stage ∈ rollbackStages, .handler stage .returned ∉ result.events) →
      ∃ captured ending, [.captured captured, .rolledBack ending].Sublist result.events

/-- Whenever a push was attempted and a rollback stage ends in a stage error,
the run ends with the capture, the rollback and the audit; a capture that itself
raises goes straight to the audit. -/
def RepairsStageErrors (result : Result Rest) : Prop :=
  result.ctx.pushResults ≠ [] →
    ∀ stage ∈ rollbackStages, ∀ message, .handler stage (.stageError message) ∈ result.events →
      (∃ before, result.events =
          before ++ [.handler stage (.stageError message), .captured false, .audited]) ∨
        ∃ before ending, result.events = before ++
          [.handler stage (.stageError message), .captured true, .rolledBack ending, .audited]

/-- Any other exception of a handler ends the run with the audit and is let
through. -/
def LetsExceptionsThrough (result : Result Rest) : Prop :=
  ∀ stage, .handler stage .raised ∈ result.events →
    result.returned = false ∧ ∃ before, result.events = before ++ [.handler stage .raised, .audited]

private theorem stages_append_audited (events : List Event) :
    (events ++ [Event.audited]).filterMap Event.stage? = events.filterMap Event.stage? := by
  rw [filterMap_append]
  exact append_nil _

private theorem policy_of_rollbackStage :
    ∀ stage ∈ rollbackStages, ∀ entry ∈ handled, entry.1 = stage → entry.2 = .rollback := by
  decide

private theorem exhausted_of_success (handlers : Handlers Rest) (runner : Runner Rest)
    (success : (run handlers runner).ctx.book.finalStatus = .success)
    (before : runner.ctx.book.finalStatus ≠ .success) :
    (loop handlers handled.zipIdx runner).exit = .exhausted := by
  by_contra stopped
  rw [run, handlers.auditLog_book, if_neg stopped] at success
  exact loop_not_success handlers handled.zipIdx runner before success

/-- **A run keeps order**, whatever its handlers do. -/
theorem run_keepsOrder (handlers : Handlers Rest) (rest : Rest) :
    KeepsOrder (run handlers (.start rest)) := by
  have shape := loop_shape handlers handled 0 (.start rest)
  refine ⟨?_, ?_, ?_, ?_⟩
  · rw [run, stages_append_audited]
    exact shape.inOrder
  · intro before stage outcome after split ends
    rcases eq_nil_or_concat after with rfl | ⟨after, last, rfl⟩
    · rfl
    · -- The audit is the last event, so the handler is one of the loop's.
      rw [concat_eq_append, ← cons_append, ← append_assoc] at split
      obtain ⟨inLoop, isAudit⟩ := append_inj' split rfl
      obtain rfl := List.cons.inj isAudit |>.1
      rw [concat_eq_append, stages_append_audited]
      exact shape.stops inLoop ends
  · simp [run, count_eq_zero.mpr shape.audited_notMem]
  · intro success stage outcome member notListed
    have exhausted := exhausted_of_success handlers (.start rest) success (by simp [Runner.start])
    rw [exhausted] at shape
    have inLoop := (mem_append.mp member).resolve_right (by simp)
    exact (shape.completed.2 stage outcome inLoop).2.resolve_right notListed

/-- **The failure contract of a run**: it keeps order, repairs a push when a
rollback stage ends in a stage error, and lets any other exception through after
the audit. -/
theorem run_failure_contract (handlers : Handlers Rest) (rest : Rest) :
    KeepsOrder (run handlers (.start rest)) ∧
      RepairsStageErrors (run handlers (.start rest)) ∧
      LetsExceptionsThrough (run handlers (.start rest)) := by
  have shape := loop_shape handlers handled 0 (.start rest)
  refine ⟨run_keepsOrder handlers rest, ?_, ?_⟩
  · intro hasPushed stage isRollback message failed
    have pushed : (loop handlers handled.zipIdx (.start rest)).runner.ctx.pushed = true := by
      rw [run, handlers.auditLog_pushResults] at hasPushed
      rw [Context.pushed, decide_eq_true_eq]
      split_ifs at hasPushed <;> exact hasPushed
    rw [pushed] at shape
    have policy : ∀ onFailure, (stage, onFailure) ∈ handled → onFailure = .rollback :=
      fun onFailure listed => policy_of_rollbackStage stage isRollback _ listed rfl
    have inLoop := (List.mem_append.mp failed).resolve_right (by simp)
    rcases shape.repairs inLoop policy with ⟨before, events⟩ | ⟨before, ending, events⟩
    · exact Or.inl ⟨before, by simp [run, events]⟩
    · exact Or.inr ⟨before, ending, by simp [run, events]⟩
  · intro stage raised
    have inLoop := (List.mem_append.mp raised).resolve_right (by simp)
    obtain ⟨ended, before, events⟩ := shape.raises inLoop
    exact ⟨by simp [run, ended], before, by simp [run, events]⟩

end Contract

/-- A deploy that pushes, and a reading of the device afterwards that ends in an
exception of its own. -/
def lostChannel : Handlers Unit where
  run stage ctx :=
    match stage with
    | .deploy => (.returned, { ctx with pushResults := [("192.0.2.1", ⟨true, false⟩)] })
    | .postSnapshot => (.raised, ctx)
    | _ => (.returned, ctx)
  note _ _ := true
  capture ctx := (true, ctx)
  rollback ctx := (.restored, ctx)
  auditLog ctx := ctx
  run_book := by
    intro stage ctx
    cases stage <;> rfl
  capture_book _ := rfl
  rollback_book _ := rfl
  auditLog_book _ := rfl
  auditLog_pushResults _ := rfl

/-- After an exception that is not a stage error nothing is captured or rolled
back. -/
theorem lostChannel_not_repaired :
    ¬ (KeepsOrder (run lostChannel (.start ())) ∧
      RepairsEveryFailure (run lostChannel (.start ()))) := by
  rintro ⟨_, repairs⟩
  have events : (run lostChannel (.start ())).events =
      [.handler .netboxQuery .returned, .handler .templateRender .returned,
        .handler .ciGate .returned, .handler .preSnapshot .returned,
        .handler .configDiff .returned, .handler .deploy .returned,
        .handler .postSnapshot .raised, .audited] := by decide
  obtain ⟨captured, ending, isSublist⟩ := repairs (by decide)
    ⟨.postSnapshot, by decide, by rw [events]; decide⟩
  have rolledBack := isSublist.subset (.tail _ (.head _))
  rw [events] at rolledBack
  simp at rolledBack

end Nmas.Pipeline
