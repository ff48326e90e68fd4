import Mathlib.Data.Rat.Floor
import Mathlib.Tactic.Linarith
import Mathlib.Tactic.Positivity
import Nmas.Ai.Reservations

/-!
Contract: the provider's batch calls, the wait for a batch to end, and what one
of its results costs and is recorded as.

Owns: the batch rates of `ai/profiles.py`, `batch_worst_case_usd`, the lines
`batch_results` returns, and `_received` for a batched request; what `create`,
`get`, `cancel` and `results` answer or raise, and `_await_batch`, with the two
waits of `ask_batch` behind one another.

Does not own: the words of a row's detail and of a wait that gave up, the
request's body, and the schema's own check of an answer, which the request
carries. A count is as `int` reads it; a cost is an exact rational of dollars. A
read of the batch's state is given by its number in the wait, and so are the
seconds the wait has run.
-/

namespace Nmas.Ai.Batches

open Nmas.Text

/-! ## Rates -/

structure Rates where
  input : ℚ
  cacheWrite : ℚ
  cacheRead : ℚ
  output : ℚ
  inputNonneg : 0 ≤ input
  outputPos : 0 < output

/-- `MODELS[model]`, as far as a cost is concerned. -/
structure Profile where
  price : Rates
  /-- `long_prompt_tokens` and `long_price`. -/
  long : Option (ℕ × Rates)

def batchMultiplier : ℚ := 1 / 2

def cacheWrite1hMultiplier : ℚ := 2

def pricesFor (profile : Profile) (promptTokens : ℤ) : Rates :=
  match profile.long with
  | some (longAt, longPrice) => if promptTokens > longAt then longPrice else profile.price
  | none => profile.price

structure BatchRates where
  input : ℚ
  cacheWrite : ℚ
  cacheWrite1h : ℚ
  cacheRead : ℚ
  output : ℚ

def batchPricesFor (profile : Profile) (promptTokens : ℤ) : BatchRates :=
  let rates := pricesFor profile promptTokens
  { input := rates.input * batchMultiplier
    cacheWrite := rates.cacheWrite * batchMultiplier
    cacheWrite1h := rates.input * cacheWrite1hMultiplier * batchMultiplier
    cacheRead := rates.cacheRead * batchMultiplier
    output := rates.output * batchMultiplier }

structure Tokens where
  input : ℤ
  output : ℤ
  cacheWrite : ℤ
  cacheWrite1h : ℤ
  cacheRead : ℤ

def batchCostUsd (profile : Profile) (tokens : Tokens) : ℚ :=
  let rates := batchPricesFor profile
    (tokens.input + tokens.cacheWrite + tokens.cacheWrite1h + tokens.cacheRead)
  (tokens.input * rates.input + tokens.cacheWrite * rates.cacheWrite
    + tokens.cacheWrite1h * rates.cacheWrite1h + tokens.cacheRead * rates.cacheRead
    + tokens.output * rates.output) / 1000000

/-- `batch_worst_case_usd`: the prompt written with the 1-hour TTL, and all of
`max_tokens`. -/
def batchWorstCaseUsd (profile : Profile) (maxTokens promptTokens : ℕ) : ℚ :=
  batchCostUsd profile ⟨0, maxTokens, 0, promptTokens, 0⟩

theorem batchWorstCaseUsd_pos (profile : Profile) {maxTokens : ℕ} (isPos : 0 < maxTokens)
    (promptTokens : ℕ) : 0 < batchWorstCaseUsd profile maxTokens promptTokens := by
  have input := (pricesFor profile (0 + 0 + promptTokens + 0)).inputNonneg
  have output := (pricesFor profile (0 + 0 + promptTokens + 0)).outputPos
  have tokens : (0 : ℚ) < maxTokens := Nat.cast_pos.mpr isPos
  simp only [batchWorstCaseUsd, batchCostUsd, batchPricesFor, batchMultiplier,
    cacheWrite1hMultiplier, Int.cast_zero, Int.cast_natCast, zero_mul, zero_add, add_zero]
  simp only [zero_add, add_zero] at input output
  positivity

/-! ## A result -/

/-- `int(value or 0)` of a count an answer states. -/
inductive Count where
  | absent
  | number (value : ℤ)
  /-- Neither a number nor a text of one: `int` raises. -/
  | malformed
deriving DecidableEq

def Count.int : Count → Option ℤ
  | .absent => some 0
  | .number value => some value
  | .malformed => none

structure Usage where
  input : Count
  output : Count
  cacheRead : Count
  cacheCreation : Count
  /-- `cache_creation`, where it is a dict: the 5-minute writes and the 1-hour. -/
  split : Option (Count × Count)
deriving DecidableEq

/-- `body.get("usage") or {}`. -/
inductive UsageField where
  | absent
  | given (usage : Usage)
  /-- Not a dict: `get` raises. -/
  | malformed
deriving DecidableEq

def UsageField.usage : UsageField → Option Usage
  | .absent => some ⟨.absent, .absent, .absent, .absent, none⟩
  | .given usage => some usage
  | .malformed => none

inductive Stop where
  /-- With whether its `stop_details` can be read. -/
  | refusal (readable : Bool)
  | maxTokens
  | other
deriving DecidableEq

/-- A `succeeded` result's message. -/
structure Message where
  usage : UsageField
  /-- Nothing where `_text_of` raises. -/
  text : Option Str
  stopReason : Stop
deriving DecidableEq

inductive NotBilled where
  | errored
  | canceled
  | expired
deriving DecidableEq

/-- A line's `result`. -/
inductive Result where
  | succeeded (message : Message)
  | notBilled (kind : NotBilled)
  /-- No dict, a type the provider does not name, or no message where one is due. -/
  | unnamed
  /-- A type that cannot be looked up: `in` raises. -/
  | unhashable
deriving DecidableEq

/-- A line's `custom_id`. -/
inductive Key where
  | text (customId : Str)
  | other
  | unhashable
deriving DecidableEq

structure Line where
  key : Key
  result : Result
deriving DecidableEq

/-! ## What it is recorded as -/

/-- The kinds of an `AdapterError`. -/
inductive Kind where
  | providerError
  | rateLimited
  | overloaded
  | keyRefused
  | badRequest
  | providerDown
  | workspaceLimit
deriving DecidableEq

inductive Verdict where
  | ok
  | refusal
  | maxTokens
  | schema
  | notBilled (kind : NotBilled)
  | batchMissing
  | batchUnknownResult
  | batchUnfinished
  | batchUnread
  | exception
  | adapter (kind : Kind)
  | batchTrigger
  | batchShape
  | overStop
  | overCap
  /-- A gate of `_prepared`, by its kind. -/
  | gate (kind : Str)
deriving DecidableEq

/-- A schema's answer to a text. -/
inductive Checked where
  | valid
  | invalid
  | raises

/-- What `_prepared` makes of a request it lets through. -/
structure Prep where
  id : Str
  profile : Profile
  promptTokens : ℕ
  maxTokens : ℕ
  maxTokensPos : 0 < maxTokens
  schema : Str → Checked

/-- A request that is sent with the batch. -/
structure Ready where
  customId : Str
  feature : Str
  prep : Prep

def Ready.worst (ready : Ready) : ℚ :=
  batchWorstCaseUsd ready.prep.profile ready.prep.maxTokens ready.prep.promptTokens

theorem Ready.worst_pos (ready : Ready) : 0 < ready.worst :=
  batchWorstCaseUsd_pos _ ready.prep.maxTokensPos _

/-- `cache_writes`: the 5-minute writes and the 1-hour; nothing where it raises. -/
def cacheWrites (usage : Usage) : Option (ℤ × ℤ) := do
  let total ← usage.cacheCreation.int
  match usage.split with
  | none => some (0, total)
  | some (five, hour) =>
    let five ← five.int
    let hour ← hour.int
    some (five, hour + max 0 (total - five - hour))

/-- What a message's usage is priced at; nothing where reading it raises. -/
def costOf (profile : Profile) (message : Message) : Option ℚ := do
  let usage ← message.usage.usage
  let input ← usage.input.int
  let output ← usage.output.int
  let read ← usage.cacheRead.int
  let writes ← cacheWrites usage
  some (batchCostUsd profile ⟨input, output, writes.1, writes.2, read⟩)

def verdictOf (schema : Str → Checked) (message : Message) : Option Verdict := do
  let text ← message.text
  match message.stopReason with
  | .refusal readable => if readable then some .refusal else none
  | .maxTokens => some .maxTokens
  | .other =>
    match schema text with
    | .valid => some .ok
    | .invalid => some .schema
    | .raises => none

/-- `_received` of a batched request, up to its row: the verdict and the cost, or
nothing where it raises. -/
def received (ready : Ready) (message : Message) : Option (Verdict × ℚ) := do
  let cost ← costOf ready.prep.profile message
  let verdict ← verdictOf ready.prep.schema message
  some (verdict, cost)

/-- The counts every answer is billed by are there. -/
def Message.statesUsage (message : Message) : Bool :=
  match message.usage with
  | .given usage => usage.input != .absent && usage.output != .absent
  | _ => false

end Nmas.Ai.Batches

namespace Nmas.Ai.Batches

open Nmas.Text
open Nmas.Heal (Clock)

structure AdapterError where
  kind : Kind
  status : ℕ
deriving DecidableEq

/-- No answer came, or one that cannot be read: the provider may have done what
it was asked. -/
def AdapterError.isUnanswered (error : AdapterError) : Bool :=
  error.kind == .providerDown && (error.status == 0 || error.status == 200)

/-- What a call of the provider raises. -/
inductive Failure where
  | adapter (error : AdapterError)
  | other
deriving DecidableEq

structure Batch where
  id : Str
  status : Str
  /-- `counts.get("processing")`. -/
  processing : Count
deriving DecidableEq

def ended : Str := "ended".toList

def batchPollS : Clock := 30

def batchWaitS : Clock := 5 / 2 * 3600

def batchCancelWaitS : Clock := 300

/-- The reads of a batch's state in one wait: what each answers, and how long the
wait had run before it. The clock goes on by what was slept. -/
structure Reads where
  state : ℕ → Except Failure Batch
  ran : ℕ → Clock
  started : 0 ≤ ran 0
  slept : ∀ polls, ran polls + batchPollS ≤ ran (polls + 1)

/-- What `_await_batch` returns. -/
structure Waited where
  batch : Batch
  ended : Bool
deriving DecidableEq

def pollAgain : List Kind := [.rateLimited, .overloaded, .providerDown]

/-- The loop of `_await_batch`, at most so many times; nothing where it goes on. -/
def awaitFrom (reads : Reads) (boundS : Clock) : ℕ → ℕ → Batch → Option (Except Failure Waited)
  | 0, _, _ => none
  | fuel + 1, polls, batch =>
    if batch.status = ended then some (.ok ⟨batch, true⟩)
    else if reads.ran polls > boundS then
      match batch.processing.int with
      | none => some (.error .other)
      | some _ => some (.ok ⟨batch, false⟩)
    else
      match reads.state polls with
      | .error (.adapter error) =>
        if error.kind ∈ pollAgain then awaitFrom reads boundS fuel (polls + 1) batch
        else some (.ok ⟨batch, false⟩)
      | .error .other => some (.error .other)
      | .ok read => awaitFrom reads boundS fuel (polls + 1) read

def rounds (boundS : Clock) : ℕ := ⌊boundS / batchPollS⌋.toNat + 2

def awaitBatch (reads : Reads) (boundS : Clock) (batch : Batch) : Option (Except Failure Waited) :=
  awaitFrom reads boundS (rounds boundS) 0 batch

structure Provider where
  create : Except Failure Batch
  reads : Reads
  cancel : Except Failure Batch
  /-- The reads after the cancel. -/
  readsAgain : Reads
  results : Except Failure (List Line)

def waitedFor (provider : Provider) (batch : Batch) : Option (Except Failure Waited) :=
  match awaitBatch provider.reads batchWaitS batch with
  | none => none
  | some (.error failure) => some (.error failure)
  | some (.ok waited) =>
    if waited.ended then some (.ok waited)
    else
      match provider.cancel with
      | .error (.adapter _) => some (.ok waited)
      | .error .other => some (.error .other)
      | .ok cancelled => awaitBatch provider.readsAgain batchCancelWaitS cancelled

/-- What is read of a batch that was created. -/
inductive Outcome where
  | raised
  | unfinished
  | unread
  | lines (lines : List Line)
deriving DecidableEq

def outcome (provider : Provider) (batch : Batch) : Option Outcome :=
  match waitedFor provider batch with
  | none => none
  | some (.error _) => some .raised
  | some (.ok waited) =>
    if waited.ended then
      match provider.results with
      | .error (.adapter _) => some .unread
      | .error .other => some .raised
      | .ok lines => some (.lines lines)
    else some .unfinished

/-! ## The wait ends -/

section

variable {reads : Reads} {boundS : Clock}

theorem Reads.ran_ge (reads : Reads) (polls : ℕ) : polls * batchPollS ≤ reads.ran polls := by
  induction polls with
  | zero => simpa using reads.started
  | succ polls ih =>
    have next := reads.slept polls
    push_cast
    linarith

theorem past_of_rounds (reads : Reads) (boundS : Clock) {polls : ℕ}
    (isLate : rounds boundS ≤ polls + 1) : boundS < reads.ran polls := by
  have isPos : (0 : Clock) < batchPollS := by norm_num [batchPollS]
  have isFloor : boundS / batchPollS < (⌊boundS / batchPollS⌋.toNat : Clock) + 1 := by
    have below := Int.lt_floor_add_one (boundS / batchPollS)
    have atMost : ((⌊boundS / batchPollS⌋ : ℤ) : Clock) ≤ (⌊boundS / batchPollS⌋.toNat : ℤ) :=
      Int.cast_le.mpr (Int.self_le_toNat _)
    rw [Int.cast_natCast] at atMost
    linarith
  have isRounds : (⌊boundS / batchPollS⌋.toNat : Clock) + 1 ≤ polls := by
    have asNat : ⌊boundS / batchPollS⌋.toNat + 1 ≤ polls := by
      rw [rounds] at isLate
      omega
    exact_mod_cast asNat
  calc boundS = boundS / batchPollS * batchPollS := (div_mul_cancel₀ _ isPos.ne').symm
    _ < polls * batchPollS := mul_lt_mul_of_pos_right (isFloor.trans_le isRounds) isPos
    _ ≤ reads.ran polls := reads.ran_ge polls

theorem awaitFrom_ends (fuel polls : ℕ) (batch : Batch) (isPos : 0 < fuel)
    (enough : rounds boundS ≤ polls + fuel) :
    ∃ waited, awaitFrom reads boundS fuel polls batch = some waited := by
  induction fuel generalizing polls batch with
  | zero => exact absurd isPos (Nat.lt_irrefl 0)
  | succ fuel ih =>
    have goesOn (next : Batch) (notPast : ¬ reads.ran polls > boundS) :
        ∃ waited, awaitFrom reads boundS fuel (polls + 1) next = some waited := by
      apply ih
      · cases fuel with
        | zero => exact absurd (past_of_rounds reads boundS enough) notPast
        | succ fuel => exact Nat.succ_pos fuel
      · omega
    rw [awaitFrom]
    split
    · exact ⟨_, rfl⟩
    · split
      · split
        · exact ⟨_, rfl⟩
        · exact ⟨_, rfl⟩
      · rename_i notPast
        split
        · split
          · exact goesOn _ notPast
          · exact ⟨_, rfl⟩
        · exact ⟨_, rfl⟩
        · exact goesOn _ notPast

end

theorem awaitBatch_ends (reads : Reads) (boundS : Clock) (batch : Batch) :
    ∃ waited, awaitBatch reads boundS batch = some waited :=
  awaitFrom_ends _ 0 batch (Nat.succ_pos _) (Nat.le_of_eq (Nat.zero_add _).symm)

theorem outcome_ends (provider : Provider) (batch : Batch) :
    ∃ read, outcome provider batch = some read := by
  have waits : ∃ waited, waitedFor provider batch = some waited := by
    unfold waitedFor
    obtain ⟨first, isFirst⟩ := awaitBatch_ends provider.reads batchWaitS batch
    rw [isFirst]
    cases first with
    | error failure => exact ⟨_, rfl⟩
    | ok waited =>
      simp only
      split
      · exact ⟨_, rfl⟩
      · split
        · exact ⟨_, rfl⟩
        · exact ⟨_, rfl⟩
        · exact awaitBatch_ends _ _ _
  obtain ⟨waited, isWaited⟩ := waits
  unfold outcome
  rw [isWaited]
  cases waited with
  | error failure => exact ⟨_, rfl⟩
  | ok waited =>
    simp only
    split
    · split <;> exact ⟨_, rfl⟩
    · exact ⟨_, rfl⟩

end Nmas.Ai.Batches
