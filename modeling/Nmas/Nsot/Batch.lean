import Mathlib.Data.Char
import Mathlib.Data.List.Lex
import Mathlib.Data.List.Sort
import Nmas.Text.Str

/-!
Contract: a batch deploy accounts for each of its devices.

Owns: `run_batch` of `nsot/deploy.py` with its circuit breaker, one device after
another or several at a time, for any behaviour of `deploy_one`.

Does not own: how the plan is made, what a device's own deploy does, and the
progress noted on the panel.
-/

namespace Nmas.Nsot.Batch

open Nmas.Text List

inductive Outcome where
  | deployed
  | skippedDrifted
  | skippedNotSelected
  | refused
  | failed
  | unattempted
deriving DecidableEq

/-- A row of the report, as far as a batch reads it. -/
structure Result where
  device : Str
  outcome : Outcome
  /-- `verify`'s `ok`, where it has one. -/
  verified : Option Bool
  reason : Str
deriving DecidableEq

/-- A planned device and the capture its program is for. -/
structure Entry where
  device : Str
  fresh : Str
deriving DecidableEq

structure Plan where
  toDeploy : List Entry
  skipped : List Result

/-! ### The breaker -/

/-- `CircuitBreaker`. -/
structure Breaker where
  limit : Nat
  failures : Nat
  trippedAfter : Option Str
deriving DecidableEq

namespace Breaker

def new (limit : Int) : Breaker := ⟨(max 1 limit).toNat, 0, none⟩

def isTripped (breaker : Breaker) : Bool := breaker.trippedAfter.isSome

def counts (result : Result) : Bool :=
  (result.outcome ≠ .deployed && result.outcome ≠ .skippedDrifted) || result.verified = some false

def recordFailure (device : Str) (breaker : Breaker) : Breaker :=
  { breaker with
    failures := breaker.failures + 1
    trippedAfter :=
      if breaker.limit ≤ breaker.failures + 1 ∧ breaker.trippedAfter = none then some device
      else breaker.trippedAfter }

def reason (breaker : Breaker) : Str :=
  let last := breaker.trippedAfter.getD "None".ascii
  if breaker.limit = 1 then
    "not attempted ".ascii ++ '—' :: " the deploy stops at its first failure, which was on ".ascii ++
      last
  else
    "not attempted ".ascii ++ '—' :: " stopped after ".ascii ++ Nat.toDigits 10 breaker.failures ++
      " failed devices (the limit is ".ascii ++ Nat.toDigits 10 breaker.limit ++
      "), last on ".ascii ++ last

end Breaker

/-! ### The batch -/

/-- What a batch holds as it runs, with the calls of `deploy_one` it made. -/
structure State where
  results : List Result
  breaker : Breaker
  attempted : List Entry
deriving DecidableEq

/-- The order the workers' devices end in. -/
structure Completion where
  order : List Entry → List Entry
  isPerm : ∀ queue, (order queue).Perm queue

/-- `deploy_one`: a device's result, or what it raises. -/
abbrev DeployOne := Entry → Except Str Result

def record (result : Result) (state : State) : State :=
  { state with
    results := state.results ++ [result]
    breaker :=
      if Breaker.counts result then state.breaker.recordFailure result.device else state.breaker }

def attempt (deployOne : DeployOne) (state : State) (entry : Entry) : Except Str State := do
  let result ← deployOne entry
  return record result { state with attempted := state.attempted ++ [entry] }

def unattempted (breaker : Breaker) (entry : Entry) : Result :=
  ⟨entry.device, .unattempted, none, breaker.reason⟩

/-- The sequential loop's body. -/
def step (deployOne : DeployOne) (state : State) (entry : Entry) : Except Str State :=
  if state.breaker.isTripped then
    .ok { state with results := state.results ++ [unattempted state.breaker entry] }
  else attempt deployOne state entry

def parallel (deployOne : DeployOne) (completion : Completion) (state : State)
    (queue : List Entry) : Except Str State :=
  if state.breaker.isTripped then
    .ok { state with results := state.results ++ queue.map (unattempted state.breaker) }
  else (completion.order queue).foldlM (attempt deployOne) state

/-- The planned devices, one after another or several at a time. -/
def deployAll (deployOne : DeployOne) (completion : Completion) (workers : Nat) (state : State)
    (queue : List Entry) : Except Str State :=
  if workers ≤ 1 then queue.foldlM (step deployOne) state
  else parallel deployOne completion state queue

structure Report where
  results : List Result
  byOutcome : List (Outcome × List Str)
  deployed : List Str
  breakerTripped : Bool
  breakerReason : Str
  total : Nat
  workers : Nat
deriving DecidableEq

def missing (plan : Plan) (results : List Result) : List Str :=
  ((plan.toDeploy.map Entry.device ++ plan.skipped.map Result.device).filter
    (· ∉ results.map Result.device)).dedup.insertionSort (· ≤ ·)

def ofOutcome (results : List Result) (outcome : Outcome) : List Str :=
  (results.filter (·.outcome = outcome)).map Result.device

def report (plan : Plan) (workers : Nat) (state : State) : Report :=
  let results := state.results ++ (missing plan state.results).map (fun device =>
    ⟨device, .unattempted, none, "not accounted for ".ascii ++ '—' :: " this is a bug".ascii⟩)
  { results := results.insertionSort (fun one other => one.device ≤ other.device)
    byOutcome := (results.map Result.outcome).eraseDups.map (fun outcome =>
      (outcome, ofOutcome results outcome))
    deployed := ofOutcome results .deployed
    breakerTripped := state.breaker.isTripped
    breakerReason := if state.breaker.isTripped then state.breaker.reason else []
    total := results.length
    workers := workers }

def workersOf (sequential : Bool) (maxWorkers : Nat) : Nat := if sequential then 1 else maxWorkers

/-- `run_batch`, with the calls of `deploy_one` it made. -/
def runBatch (deployOne : DeployOne) (completion : Completion) (plan : Plan) (breaker : Breaker)
    (sequential : Bool) (maxWorkers : Nat) : Except Str (Report × List Entry) := do
  let workers := workersOf sequential maxWorkers
  let ended ← deployAll deployOne completion workers ⟨plan.skipped, breaker, []⟩ plan.toDeploy
  return (report plan workers ended, ended.attempted)

/-! ### What a batch accounts for -/

def Raises (deployOne : DeployOne) (entry : Entry) : Prop := ∃ why, deployOne entry = .error why

/-- The device's own result, none where `deploy_one` raised. -/
def resultOf (deployOne : DeployOne) (entry : Entry) : Option Result := (deployOne entry).toOption

def fails (deployOne : DeployOne) (entry : Entry) : Bool :=
  (resultOf deployOne entry).any Breaker.counts

/-- One row for each device of the plan: its own where it was attempted, and where it was not, that
it was not. Sequentially none is attempted past the limit. -/
structure Accounted (deployOne : DeployOne) (plan : Plan) (limit workers : Nat) (report : Report)
    (attempted : List Entry) : Prop where
  once : (report.results.map Result.device).Perm
    (plan.skipped.map Result.device ++ plan.toDeploy.map Entry.device)
  marked : ∃ left, (attempted ++ left).Perm plan.toDeploy ∧
    report.results.Perm (plan.skipped ++ attempted.filterMap (resultOf deployOne) ++
      left.map (fun entry => ⟨entry.device, .unattempted, none, report.breakerReason⟩))
  stops : workers ≤ 1 → ∀ before entry after, attempted = before ++ entry :: after →
    before.countP (fails deployOne) < limit

/-- `deploy_one` raises on no device: on none at all with several workers, and with one on none
that comes before the limit's failures. -/
def RaisesNowhere (deployOne : DeployOne) (queue : List Entry) (limit workers : Nat) : Prop :=
  ∀ before entry after, queue = before ++ entry :: after → Raises deployOne entry →
    workers ≤ 1 ∧ limit ≤ before.countP (fails deployOne)

section Runs

variable {deployOne : DeployOne} {state ended : State} {queue : List Entry} {entry : Entry}
  {result : Result}

/-- The breaker has tripped exactly at its limit. -/
structure Breaker.Sound (breaker : Breaker) : Prop where
  positive : 0 < breaker.limit
  tripped : breaker.isTripped = true ↔ breaker.limit ≤ breaker.failures

theorem Breaker.sound_new (limit : Int) : (Breaker.new limit).Sound where
  positive := by
    show 0 < (max 1 limit).toNat
    omega
  tripped := by
    show false = true ↔ (max 1 limit).toNat ≤ 0
    simp only [Bool.false_eq_true, false_iff]
    omega

theorem Breaker.Sound.recordFailure {breaker : Breaker} (sound : breaker.Sound) (device : Str) :
    (breaker.recordFailure device).Sound := by
  refine ⟨sound.positive, ?_⟩
  have old : breaker.trippedAfter.isSome ↔ breaker.limit ≤ breaker.failures := sound.tripped
  unfold Breaker.recordFailure Breaker.isTripped
  rcases isTripped : breaker.trippedAfter with - | last
  · rw [isTripped] at old
    simp only [and_true]
    split
    · rename_i reached
      simp [reached]
    · rename_i unreached
      simp [unreached]
  · rw [isTripped] at old
    have reached : breaker.limit ≤ breaker.failures := old.mp rfl
    simp only [reduceCtorEq, and_false, if_false, Option.isSome_some, true_iff]
    omega

theorem attempt_ok (isOk : attempt deployOne state entry = .ok ended) :
    ∃ result, deployOne entry = .ok result ∧
      ended = record result { state with attempted := state.attempted ++ [entry] } := by
  unfold attempt at isOk
  cases called : deployOne entry with
  | error why =>
    rw [called] at isOk
    cases isOk
  | ok result =>
    rw [called] at isOk
    cases isOk
    exact ⟨result, rfl, rfl⟩

theorem attempt_of_ok (called : deployOne entry = .ok result) :
    attempt deployOne state entry =
      .ok (record result { state with attempted := state.attempted ++ [entry] }) := by
  unfold attempt
  rw [called]
  rfl

theorem record_sound (sound : state.breaker.Sound) (result : Result) :
    (record result state).breaker.Sound := by
  unfold record
  split
  · exact sound.recordFailure result.device
  · exact sound

theorem record_limit (result : Result) (state : State) :
    (record result state).breaker.limit = state.breaker.limit := by
  unfold record
  split
  · rfl
  · rfl

theorem record_failures (called : deployOne entry = .ok result) (state : State) :
    (record result state).breaker.failures =
      state.breaker.failures + [entry].countP (fails deployOne) := by
  have isFailure : fails deployOne entry = Breaker.counts result := by
    unfold fails resultOf
    rw [called]
    rfl
  rw [countP_singleton, isFailure]
  unfold record
  split
  · rfl
  · rfl

theorem resultOf_ok (called : deployOne entry = .ok result) :
    resultOf deployOne entry = some result := by
  unfold resultOf
  rw [called]
  rfl

theorem steps_of_tripped (tripped : state.breaker.isTripped) :
    queue.foldlM (step deployOne) state =
      .ok { state with results := state.results ++ queue.map (unattempted state.breaker) } := by
  induction queue generalizing state with
  | nil =>
    rw [map_nil, append_nil]
    rfl
  | cons entry rest ih =>
    have isStep : step deployOne state entry =
        .ok { state with results := state.results ++ [unattempted state.breaker entry] } :=
      if_pos tripped
    rw [foldlM_cons, isStep]
    refine (ih (by exact tripped)).trans ?_
    rw [map_cons, append_assoc]
    rfl

structure Swept (deployOne : DeployOne) (state : State) (queue : List Entry) (ended : State)
    (called left : List Entry) : Prop where
  split : queue = called ++ left
  attempted : ended.attempted = state.attempted ++ called
  results : ended.results = state.results ++ called.filterMap (resultOf deployOne) ++
    left.map (unattempted ended.breaker)
  answered : ∀ entry ∈ called, ¬ Raises deployOne entry
  below : ∀ before entry after, called = before ++ entry :: after →
    state.breaker.failures + before.countP (fails deployOne) < state.breaker.limit
  stopped : left ≠ [] → ended.breaker.isTripped = true ∧
    state.breaker.limit ≤ state.breaker.failures + called.countP (fails deployOne)

theorem steps_ok (sound : state.breaker.Sound)
    (isOk : queue.foldlM (step deployOne) state = .ok ended) :
    ∃ called left, Swept deployOne state queue ended called left := by
  induction queue generalizing state with
  | nil =>
    cases isOk
    refine ⟨[], [], rfl, (append_nil _).symm, ?_, ?_, ?_, fun isLeft => absurd rfl isLeft⟩
    · rw [filterMap_nil, map_nil, append_nil, append_nil]
    · intro entry member
      cases member
    · intro before entry after isSplit
      exact absurd isSplit.symm (by simp)
  | cons entry rest ih =>
    by_cases tripped : state.breaker.isTripped = true
    · rw [steps_of_tripped tripped] at isOk
      cases isOk
      have reached := sound.tripped.mp tripped
      refine ⟨[], entry :: rest, rfl, (append_nil _).symm, ?_, ?_, ?_, fun _ => ⟨tripped, ?_⟩⟩
      · rw [filterMap_nil, append_nil]
      · intro entry member
        cases member
      · intro before entry after isSplit
        exact absurd isSplit.symm (by simp)
      · rw [countP_nil]
        exact reached
    · have isStep : step deployOne state entry = attempt deployOne state entry := if_neg tripped
      rw [foldlM_cons, isStep] at isOk
      cases isAttempt : attempt deployOne state entry with
      | error why =>
        rw [isAttempt] at isOk
        cases isOk
      | ok next =>
        rw [isAttempt] at isOk
        obtain ⟨result, called, rfl⟩ := attempt_ok isAttempt
        have unreached : state.breaker.failures < state.breaker.limit :=
          not_le.mp (mt sound.tripped.mpr tripped)
        obtain ⟨others, left, swept⟩ := ih (record_sound (by exact sound) result) isOk
        have failures := record_failures called
          { state with attempted := state.attempted ++ [entry] }
        have limit := record_limit result { state with attempted := state.attempted ++ [entry] }
        refine ⟨entry :: others, left, ?_, ?_, ?_, ?_, ?_, ?_⟩
        · rw [swept.split]
          rfl
        · rw [swept.attempted]
          exact append_assoc _ _ _
        · rw [swept.results, filterMap_cons_some (resultOf_ok called)]
          have recorded : (record result
              { state with attempted := state.attempted ++ [entry] }).results =
                state.results ++ [result] := rfl
          rw [recorded]
          simp only [append_assoc, cons_append, nil_append]
        · intro other member
          rcases mem_cons.mp member with rfl | later
          · rintro ⟨why, raised⟩
            rw [called] at raised
            cases raised
          · exact swept.answered other later
        · intro before other after isSplit
          cases before with
          | nil => simpa using unreached
          | cons first more =>
            obtain ⟨rfl, isRest⟩ := List.cons.inj isSplit
            have below := swept.below more other after isRest
            rw [failures, limit] at below
            rw [← singleton_append, countP_append, ← Nat.add_assoc]
            exact below
        · intro isLeft
          obtain ⟨isTripped, reached⟩ := swept.stopped isLeft
          rw [failures, limit] at reached
          refine ⟨isTripped, ?_⟩
          rw [← singleton_append, countP_append, ← Nat.add_assoc]
          exact reached

theorem steps_end (sound : state.breaker.Sound)
    (quiet : ∀ before entry after, queue = before ++ entry :: after → Raises deployOne entry →
      state.breaker.limit ≤ state.breaker.failures + before.countP (fails deployOne)) :
    ∃ ended, queue.foldlM (step deployOne) state = .ok ended := by
  induction queue generalizing state with
  | nil => exact ⟨state, rfl⟩
  | cons entry rest ih =>
    by_cases tripped : state.breaker.isTripped = true
    · exact ⟨_, steps_of_tripped tripped⟩
    · have isStep : step deployOne state entry = attempt deployOne state entry := if_neg tripped
      have unreached : state.breaker.failures < state.breaker.limit :=
        not_le.mp (mt sound.tripped.mpr tripped)
      cases called : deployOne entry with
      | error why =>
        have reached := quiet [] entry rest rfl ⟨why, called⟩
        rw [countP_nil] at reached
        omega
      | ok result =>
        rw [foldlM_cons, isStep, attempt_of_ok called]
        apply ih (record_sound (by exact sound) result)
        intro before other after isSplit raised
        rw [record_limit, record_failures called, Nat.add_assoc, ← countP_append]
        exact quiet (entry :: before) other after (by rw [isSplit]; rfl) raised

theorem attempts_ok (isOk : queue.foldlM (attempt deployOne) state = .ok ended) :
    ended.attempted = state.attempted ++ queue ∧
      ended.results = state.results ++ queue.filterMap (resultOf deployOne) ∧
      ∀ entry ∈ queue, ¬ Raises deployOne entry := by
  induction queue generalizing state with
  | nil =>
    cases isOk
    refine ⟨(append_nil _).symm, (append_nil _).symm, ?_⟩
    intro entry member
    cases member
  | cons entry rest ih =>
    rw [foldlM_cons] at isOk
    cases isAttempt : attempt deployOne state entry with
    | error why =>
      rw [isAttempt] at isOk
      cases isOk
    | ok next =>
      rw [isAttempt] at isOk
      obtain ⟨result, called, rfl⟩ := attempt_ok isAttempt
      obtain ⟨attempted, results, answered⟩ := ih isOk
      refine ⟨?_, ?_, ?_⟩
      · rw [attempted]
        exact append_assoc _ _ _
      · rw [results, filterMap_cons_some (resultOf_ok called)]
        exact append_assoc _ _ _
      · intro other member
        rcases mem_cons.mp member with rfl | later
        · rintro ⟨why, raised⟩
          rw [called] at raised
          cases raised
        · exact answered other later

theorem attempts_end (quiet : ∀ entry ∈ queue, ¬ Raises deployOne entry) :
    ∃ ended, queue.foldlM (attempt deployOne) state = .ok ended := by
  induction queue generalizing state with
  | nil => exact ⟨state, rfl⟩
  | cons entry rest ih =>
    cases called : deployOne entry with
    | error why => exact absurd ⟨why, called⟩ (quiet entry (.head _))
    | ok result =>
      rw [foldlM_cons, attempt_of_ok called]
      exact ih (fun other member => quiet other (.tail _ member))

end Runs

/-! ### The report -/

section Reports

variable {deployOne : DeployOne} {plan : Plan} {called left : List Entry} {breaker : Breaker}

/-- `deploy_one` answers for the device it was called with. -/
def NamesItsDevice (deployOne : DeployOne) : Prop :=
  ∀ entry result, deployOne entry = .ok result → result.device = entry.device

theorem devices_of_results (names : NamesItsDevice deployOne)
    (answered : ∀ entry ∈ called, ¬ Raises deployOne entry) :
    (called.filterMap (resultOf deployOne)).map Result.device = called.map Entry.device := by
  induction called with
  | nil => rfl
  | cons entry rest ih =>
    cases isCalled : deployOne entry with
    | error why => exact absurd ⟨why, isCalled⟩ (answered entry (.head _))
    | ok result =>
      rw [filterMap_cons_some (resultOf_ok isCalled), map_cons, map_cons,
        names entry result isCalled,
        ih (fun other member => answered other (.tail _ member))]

def rows (deployOne : DeployOne) (plan : Plan) (called left : List Entry) (breaker : Breaker) :
    List Result :=
  plan.skipped ++ called.filterMap (resultOf deployOne) ++ left.map (unattempted breaker)

theorem devices_of_rows (names : NamesItsDevice deployOne)
    (answered : ∀ entry ∈ called, ¬ Raises deployOne entry)
    (split : (called ++ left).Perm plan.toDeploy) :
    ((rows deployOne plan called left breaker).map Result.device).Perm
      (plan.skipped.map Result.device ++ plan.toDeploy.map Entry.device) := by
  have isLeft : (left.map (unattempted breaker)).map Result.device = left.map Entry.device := by
    rw [map_map]
    rfl
  unfold rows
  rw [map_append, map_append, devices_of_results names answered, isLeft,
    append_assoc, ← map_append]
  exact (split.map Entry.device).append_left _

theorem missing_rows (names : NamesItsDevice deployOne)
    (answered : ∀ entry ∈ called, ¬ Raises deployOne entry)
    (split : (called ++ left).Perm plan.toDeploy) :
    missing plan (rows deployOne plan called left breaker) = [] := by
  have all : (plan.toDeploy.map Entry.device ++ plan.skipped.map Result.device).filter
      (· ∉ (rows deployOne plan called left breaker).map Result.device) = [] := by
    rw [filter_eq_nil_iff]
    intro device member
    have isRow : device ∈ (rows deployOne plan called left breaker).map Result.device := by
      rw [(devices_of_rows names answered split).mem_iff, mem_append]
      exact (mem_append.mp member).symm
    simpa using isRow
  unfold missing
  rw [all]
  rfl

theorem accounted {state : State} {workers limit : Nat} (names : NamesItsDevice deployOne)
    (split : (called ++ left).Perm plan.toDeploy) (isAttempted : state.attempted = called)
    (areRows : state.results = rows deployOne plan called left state.breaker)
    (answered : ∀ entry ∈ called, ¬ Raises deployOne entry)
    (stopped : left ≠ [] → state.breaker.isTripped)
    (stops : workers ≤ 1 → ∀ before entry after, called = before ++ entry :: after →
      before.countP (fails deployOne) < limit) :
    Accounted deployOne plan limit workers (report plan workers state) state.attempted := by
  have areResults : (report plan workers state).results.Perm
      (rows deployOne plan called left state.breaker) := by
    show (List.insertionSort _ (state.results ++ (missing plan state.results).map _)).Perm _
    rw [areRows, missing_rows names answered split, map_nil, append_nil]
    exact perm_insertionSort _ _
  refine ⟨?_, ⟨left, ?_, ?_⟩, ?_⟩
  · exact (areResults.map Result.device).trans (devices_of_rows names answered split)
  · rw [isAttempted]
    exact split
  · rw [isAttempted]
    refine areResults.trans ?_
    have isReason : left.map (unattempted state.breaker) =
        left.map (fun entry =>
          ⟨entry.device, .unattempted, none, (report plan workers state).breakerReason⟩) := by
      by_cases isLeft : left = []
      · rw [isLeft]
        rfl
      · have isSaid : (report plan workers state).breakerReason = state.breaker.reason :=
          if_pos (stopped isLeft)
        rw [isSaid]
        rfl
    unfold rows
    rw [isReason]
  · rw [isAttempted]
    exact stops

end Reports

section Main

variable {deployOne : DeployOne}

theorem runBatch_ok {completion : Completion} {plan : Plan} {breaker : Breaker}
    {sequential : Bool} {maxWorkers : Nat} {answer : Report × List Entry}
    (isOk : runBatch deployOne completion plan breaker sequential maxWorkers = .ok answer) :
    ∃ ended, deployAll deployOne completion (workersOf sequential maxWorkers)
        ⟨plan.skipped, breaker, []⟩ plan.toDeploy = .ok ended ∧
      answer = (report plan (workersOf sequential maxWorkers) ended, ended.attempted) := by
  unfold runBatch at isOk
  dsimp only at isOk
  rcases isRun : deployAll deployOne completion (workersOf sequential maxWorkers)
      ⟨plan.skipped, breaker, []⟩ plan.toDeploy with why | ended
  · rw [isRun] at isOk
    cases isOk
  · rw [isRun] at isOk
    cases isOk
    exact ⟨ended, rfl, rfl⟩

theorem runBatch_of_ended {completion : Completion} {plan : Plan} {breaker : Breaker}
    {sequential : Bool} {maxWorkers : Nat} {ended : State}
    (isRun : deployAll deployOne completion (workersOf sequential maxWorkers)
      ⟨plan.skipped, breaker, []⟩ plan.toDeploy = .ok ended) :
    runBatch deployOne completion plan breaker sequential maxWorkers =
      .ok (report plan (workersOf sequential maxWorkers) ended, ended.attempted) := by
  unfold runBatch
  dsimp only
  rw [isRun]
  rfl

theorem accounted_of_ok (names : NamesItsDevice deployOne) {completion : Completion} {plan : Plan}
    {limit : Int} {sequential : Bool} {maxWorkers : Nat} {answer : Report × List Entry}
    (isOk : runBatch deployOne completion plan (.new limit) sequential maxWorkers = .ok answer) :
    Accounted deployOne plan (max 1 limit).toNat (workersOf sequential maxWorkers) answer.1
        answer.2 ∧
      RaisesNowhere deployOne plan.toDeploy (max 1 limit).toNat
        (workersOf sequential maxWorkers) := by
  obtain ⟨ended, isRun, rfl⟩ := runBatch_ok isOk
  unfold deployAll at isRun
  split at isRun
  · rename_i isOne
    obtain ⟨called, left, swept⟩ := steps_ok (Breaker.sound_new limit) isRun
    have below : ∀ before entry after, called = before ++ entry :: after →
        before.countP (fails deployOne) < (max 1 limit).toNat := by
      intro before entry after isSplit
      have below := swept.below before entry after isSplit
      rwa [show (Breaker.new limit).failures = 0 from rfl, Nat.zero_add] at below
    refine ⟨accounted names (List.Perm.of_eq swept.split.symm) swept.attempted swept.results
      swept.answered (fun isLeft => (swept.stopped isLeft).1) (fun _ => below), ?_⟩
    intro before entry after isSplit raised
    refine ⟨isOne, ?_⟩
    rw [swept.split, append_eq_append_iff] at isSplit
    -- The device that raises lies past those called.
    rcases isSplit with ⟨more, isBefore, isLeft⟩ | ⟨more, isCalled, isRest⟩
    · have isLeft : left ≠ [] := by
        rw [isLeft]
        exact append_ne_nil_of_right_ne_nil _ (cons_ne_nil _ _)
      have reached := (swept.stopped isLeft).2
      rw [show (Breaker.new limit).failures = 0 from rfl, Nat.zero_add] at reached
      rw [isBefore, countP_append]
      exact le_trans reached (Nat.le_add_right _ _)
    · cases more with
      | nil =>
        have isLeft : left ≠ [] := by
          rw [nil_append] at isRest
          rw [← isRest]
          exact cons_ne_nil _ _
        have reached := (swept.stopped isLeft).2
        rw [show (Breaker.new limit).failures = 0 from rfl, Nat.zero_add, isCalled,
          append_nil] at reached
        exact reached
      | cons first later =>
        obtain ⟨rfl, -⟩ := List.cons.inj isRest
        exact absurd raised (swept.answered _ (by rw [isCalled]; simp))
  · rename_i isMany
    have isRun : (completion.order plan.toDeploy).foldlM (attempt deployOne)
        ⟨plan.skipped, .new limit, []⟩ = .ok ended := isRun
    obtain ⟨isAttempted, areRows, answered⟩ := attempts_ok isRun
    have isPerm := completion.isPerm plan.toDeploy
    refine ⟨?_, ?_⟩
    · have isSplit : (completion.order plan.toDeploy ++ []).Perm plan.toDeploy := by
        rw [append_nil]
        exact isPerm
      apply accounted names isSplit isAttempted _ answered (fun isLeft => absurd rfl isLeft)
        (fun isOne => absurd isOne isMany)
      rw [areRows]
      exact (append_nil _).symm
    · intro before entry after isSplit raised
      have member : entry ∈ plan.toDeploy := by
        rw [isSplit]
        simp
      exact absurd raised (answered entry (isPerm.mem_iff.mpr member))

/-- **A batch accounts for its devices exactly where `deploy_one` raises on none it reaches.** -/
theorem runBatch_accounts_iff (names : NamesItsDevice deployOne) (completion : Completion)
    (plan : Plan) (limit : Int) (sequential : Bool) (maxWorkers : Nat) :
    (∃ report attempted,
        runBatch deployOne completion plan (.new limit) sequential maxWorkers =
          .ok (report, attempted) ∧
        Accounted deployOne plan (max 1 limit).toNat (workersOf sequential maxWorkers) report
          attempted) ↔
      RaisesNowhere deployOne plan.toDeploy (max 1 limit).toNat
        (workersOf sequential maxWorkers) := by
  constructor
  · rintro ⟨report, attempted, isOk, -⟩
    exact (accounted_of_ok names isOk).2
  · intro quiet
    have ends : ∃ ended, deployAll deployOne completion (workersOf sequential maxWorkers)
        ⟨plan.skipped, .new limit, []⟩ plan.toDeploy = .ok ended := by
      unfold deployAll
      split
      · apply steps_end (Breaker.sound_new limit)
        intro before entry after isSplit raised
        have reached := (quiet before entry after isSplit raised).2
        exact le_trans reached (Nat.le_add_left _ _)
      · rename_i isMany
        apply attempts_end
        intro entry member raised
        obtain ⟨before, after, isSplit⟩ :=
          List.append_of_mem ((completion.isPerm plan.toDeploy).mem_iff.mp member)
        exact isMany (quiet before entry after isSplit raised).1
    obtain ⟨ended, isRun⟩ := ends
    have isOk := runBatch_of_ended isRun
    exact ⟨_, _, isOk, (accounted_of_ok names isOk).1⟩

/-- The workers end in the queue's own order. -/
def inTurn : Completion := ⟨id, fun _ => .refl _⟩

def rejects : DeployOne := fun entry => .ok ⟨entry.device, .failed, none, "rejected".ascii⟩

def threeRouters : Plan := ⟨[⟨"r1".ascii, []⟩, ⟨"r2".ascii, []⟩, ⟨"r3".ascii, []⟩], []⟩

theorem rejects_accounted :
    NamesItsDevice rejects ∧
      ((∃ report attempted,
          runBatch rejects inTurn threeRouters (.new 2) true 4 = .ok (report, attempted) ∧
          Accounted rejects threeRouters 2 1 report attempted) ↔
        RaisesNowhere rejects threeRouters.toDeploy 2 1) := by
  have names : NamesItsDevice rejects := by
    intro entry result isResult
    cases isResult
    rfl
  exact ⟨names, runBatch_accounts_iff names inTurn threeRouters 2 true 4⟩

/-- `deploy_one` raises on the second device: the first was pushed to, and there is no report. -/
theorem second_raises :
    let deployOne : DeployOne := fun entry =>
      if entry.device = "r2".ascii then .error "lost".ascii
      else .ok ⟨entry.device, .deployed, some true, []⟩
    NamesItsDevice deployOne ∧
      runBatch deployOne inTurn threeRouters (.new 2) true 1 = .error "lost".ascii ∧
      ¬ ∃ report attempted,
        runBatch deployOne inTurn threeRouters (.new 2) true 1 = .ok (report, attempted) ∧
        Accounted deployOne threeRouters 2 1 report attempted := by
  refine ⟨?_, by decide +kernel, ?_⟩
  · intro entry result isResult
    dsimp only at isResult
    split at isResult
    · cases isResult
    · cases isResult
      rfl
  · rintro ⟨report, attempted, isOk, -⟩
    have raised : runBatch (fun entry => if entry.device = "r2".ascii then .error "lost".ascii
        else .ok ⟨entry.device, .deployed, some true, []⟩) inTurn threeRouters (.new 2) true 1 =
          .error "lost".ascii := by decide +kernel
    rw [raised] at isOk
    cases isOk

end Main

end Nmas.Nsot.Batch
