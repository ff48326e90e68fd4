import Nmas.Ai.Batches.Waiting

/-!
Contract: an evaluation round's calls as one batch.

Owns: `ask_batch`: the requests refused before anything is sent, the reservation,
the rows offered to the record once it is made, and what the reservation becomes.

Does not own: the gates of `_prepared`, the caps' judge and the body's size, which
a round is given; and the provider's hold of its usage limit, which no row's cost
depends on. The record is what it answers of each row by the row's number.
-/

namespace Nmas.Ai.Batches

open Nmas.Text

/-! ## What is asked -/

/-- A request of the list. One that is no dict, or whose `custom_id` is no text,
names nothing. -/
structure Request where
  customId : Str
  feature : Str
  /-- It names each of `BATCH_REQUEST_KEYS`. -/
  isNamed : Bool
deriving DecidableEq

def batchMaxRequests : ℕ := 100000

def batchMaxBytes : ℕ := 256 * 1024 * 1024

/-- `_CUSTOM_ID`; its `$` also stands before a last line feed. -/
def isCustomId (customId : Str) : Bool :=
  let body := if customId.getLast? = some '\n' then customId.dropLast else customId
  1 ≤ body.length && body.length ≤ 64 && body.all (fun c => c.isAlphanum || c == '_' || c == '-')

def shapedFrom (seen : List Str) : List Request → Bool
  | [] => true
  | request :: rest =>
    request.isNamed && isCustomId request.customId && !seen.contains request.customId &&
      shapedFrom (request.customId :: seen) rest

/-- `_batch_shape` says nothing. -/
def isShaped (requests : List Request) : Bool :=
  !requests.isEmpty && requests.length ≤ batchMaxRequests && shapedFrom [] requests

/-- `_prepared`: a refusal by its kind, or the request to send. -/
inductive Prepared where
  | refused (id kind : Str)
  | ready (prep : Prep)

/-- What `ask_batch` is called with, and what the gates answer. -/
structure Ask where
  requests : List Request
  /-- The trigger is an evaluation's. -/
  isEvaluation : Bool
  prepared : Request → Prepared
  /-- `calls.new_id` of the row at a place, where the batch is refused whole. -/
  newId : ℕ → Str
  capPerCall : Str → ℚ
  size : List Ready → ℕ
  stopUsd : Option ℚ
  batchKey : Str
  /-- `reserve` of the batch's worst case is not refused. -/
  reserves : ℚ → Bool

/-! ## The record -/

/-- A row as far as it is counted. -/
structure Row where
  id : Str
  customId : Str
  feature : Str
  batchId : Str
  verdict : Verdict
  costUsd : ℚ
  worstUsd : Option ℚ
  notBilled : Bool
deriving DecidableEq

/-- What the record answers of the rows it is offered, by their number. -/
abbrev Record := ℕ → Row → Bool

structure Offer where
  row : Row
  isTaken : Bool
deriving DecidableEq

/-- `late_row` of a row that was refused. -/
def Row.late (row : Row) : LateRow where
  id := row.id
  feature := row.feature
  at_ := none
  costUsd := row.costUsd

def offer (record : Record) (offers : List Offer) (row : Row) : List Offer :=
  offers ++ [⟨row, record offers.length row⟩]

def refusedRow (customId feature id : Str) (verdict : Verdict) : Row :=
  ⟨id, customId, feature, [], verdict, 0, none, false⟩

def Ready.row (ready : Ready) (verdict : Verdict) : Row :=
  refusedRow ready.customId ready.feature ready.prep.id verdict

/-! ## Before the reservation -/

/-- The loop over the requests: the rows of those refused, and those to send. -/
def prepare (ask : Ask) (record : Record) : List Request → List Offer → List Offer × List Ready
  | [], offers => (offers, [])
  | request :: rest, offers =>
    match ask.prepared request with
    | .refused id kind =>
      prepare ask record rest
        (offer record offers (refusedRow request.customId request.feature id (.gate kind)))
    | .ready prep =>
      let ready : Ready := ⟨request.customId, request.feature, prep⟩
      if ready.worst > ask.capPerCall request.feature then
        prepare ask record rest
          (offer record offers { ready.row .overCap with worstUsd := some ready.worst })
      else
        let (offers, others) := prepare ask record rest offers
        (offers, ready :: others)

def refuseAll (record : Record) (verdict : Verdict) (ready : List Ready) (offers : List Offer) :
    List Offer :=
  ready.foldl (fun offers one =>
    offer record offers { one.row verdict with worstUsd := some one.worst }) offers

/-- `_batch_refused_whole`. -/
def refusedWhole (ask : Ask) (record : Record) (verdict : Verdict) : List Offer :=
  ask.requests.foldl (fun offers request =>
    offer record offers
      (refusedRow request.customId request.feature (ask.newId offers.length) verdict)) []

/-! ## After it -/

structure Round where
  offers : List Offer
  pending : List Ready
  unrecorded : List LateRow

/-- `done`, once the row is offered; a refusal's result names no cost. -/
def Round.done (round : Round) (record : Record) (one : Ready) (row : Row)
    (costUsd : Option ℚ) : Round where
  offers := offer record round.offers row
  pending := round.pending.filter (fun other => other.customId ≠ one.customId)
  unrecorded :=
    if record round.offers.length row then round.unrecorded
    else round.unrecorded ++ [{ row.late with costUsd := costUsd.getD one.worst }]

/-- `p["refuse"]`, with its result. -/
def Round.refuse (round : Round) (record : Record) (one : Ready) (kind : Kind) : Round :=
  round.done record one (one.row (.adapter kind)) none

/-- The row of a request of a batch that was created. -/
def Ready.sent (ready : Ready) (batchId : Str) (verdict : Verdict) (costUsd : ℚ) : Row :=
  { ready.row verdict with batchId := batchId, costUsd := costUsd }

/-- `_answered`, with its result. -/
def Round.answered (round : Round) (record : Record) (one : Ready) (row : Row) : Round :=
  round.done record one row (some row.costUsd)

def Round.countedWorst (record : Record) (batchId : Str) (verdict : Verdict) (round : Round)
    (one : Ready) : Round :=
  round.answered record one { one.sent batchId verdict one.worst with worstUsd := some one.worst }

/-- The first line that names a request. -/
def got (lines : List Line) (customId : Str) : Option Result :=
  (lines.find? (fun line => line.key = .text customId)).map Line.result

def Round.read (record : Record) (batchId : Str) (lines : List Line) (round : Round)
    (one : Ready) : Option Round :=
  match got lines one.customId with
  | none => some (round.countedWorst record batchId .batchMissing one)
  | some (.succeeded message) =>
    (received one message).map (fun answer =>
      round.answered record one (one.sent batchId answer.1 answer.2))
  | some (.notBilled kind) =>
    some (round.answered record one { one.sent batchId (.notBilled kind) 0 with notBilled := true })
  | some .unnamed => some (round.countedWorst record batchId .batchUnknownResult one)
  | some .unhashable => none

def Round.readAll (record : Record) (batchId : Str) (lines : List Line) :
    List Ready → Round → Round × Bool
  | [], round => (round, false)
  | one :: rest, round =>
    match round.read record batchId lines one with
    | none => (round, true)
    | some next => Round.readAll record batchId lines rest next

/-- What is under the `try`, with whether it raised. -/
def Round.attempt (round : Round) (record : Record) (provider : Provider) :
    Option (Str × Round × Bool) :=
  match provider.create with
  | .error (.adapter error) =>
    some ([], round.pending.foldl (fun round one => round.refuse record one error.kind) round,
      false)
  | .error .other => some ([], round, true)
  | .ok batch =>
    match outcome provider batch with
    | none => none
    | some .raised => some (batch.id, round, true)
    | some .unfinished =>
      some (batch.id, round.pending.foldl
        (Round.countedWorst record batch.id .batchUnfinished) round, false)
    | some .unread =>
      some (batch.id, round.pending.foldl
        (Round.countedWorst record batch.id .batchUnread) round, false)
    | some (.lines lines) =>
      if lines.any (fun line => line.key = .unhashable) then some (batch.id, round, true)
      else some (batch.id, round.readAll record batch.id lines round.pending)

/-- What `except BaseException` does for a request that is left. -/
def Round.excepted (record : Record) (batchId : Str) (round : Round) (one : Ready) : Round :=
  round.done record one
    { one.sent batchId .exception one.worst with worstUsd := some one.worst } (some one.worst)

/-- The `finally`: nothing, while a request is left. -/
def Round.closed (round : Round) (batchKey : Str) : Option Reservations.Op :=
  if round.pending.isEmpty then
    if round.unrecorded.isEmpty then some (.settle batchKey)
    else some (.holdUnrecorded batchKey round.unrecorded)
  else none

/-- What a run of `ask_batch` leaves. -/
structure Run where
  /-- The rows offered before the reservation, or where there is none. -/
  before : List Offer
  after : List Offer
  /-- What is asked of the reservations at its end, where one was made. -/
  closed : Option Reservations.Op
  raised : Bool

def reservedRun (ask : Ask) (record : Record) (provider : Provider) (before : List Offer)
    (ready : List Ready) : Option Run :=
  let round : Round := ⟨before, ready, []⟩
  match round.attempt record provider with
  | none => none
  | some (batchId, attempted, raised) =>
    let round := if raised then
      attempted.pending.foldl (Round.excepted record batchId) attempted else attempted
    some ⟨before, round.offers.drop before.length, round.closed ask.batchKey, raised⟩

def totalOf (ready : List Ready) : ℚ := (ready.map Ready.worst).sum

/-- The requests the gates and their own caps let through, with the rows of the others. -/
def Ask.prepare (ask : Ask) (record : Record) : List Offer × List Ready :=
  Batches.prepare ask record ask.requests []

def askBatch (ask : Ask) (record : Record) (provider : Provider) : Option Run :=
  if !ask.isEvaluation then some ⟨refusedWhole ask record .batchTrigger, [], none, false⟩
  else if !isShaped ask.requests then
    some ⟨refusedWhole ask record .batchShape, [], none, false⟩
  else
    let (before, ready) := ask.prepare record
    if ready.isEmpty then some ⟨before, [], none, false⟩
    else if ask.size ready > batchMaxBytes then
      some ⟨refuseAll record .batchShape ready before, [], none, false⟩
    else if ask.stopUsd.any (fun stopUsd => totalOf ready > stopUsd) then
      some ⟨refuseAll record .overStop ready before, [], none, false⟩
    else if !ask.reserves (totalOf ready) then
      some ⟨refuseAll record .overCap ready before, [], none, false⟩
    else reservedRun ask record provider before ready

end Nmas.Ai.Batches
