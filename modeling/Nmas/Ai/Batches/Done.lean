import Mathlib.Data.List.TakeWhile
import Nmas.Ai.Batches.Round

/-!
Contract: what a reserved batch's requests leave, whatever the provider does.

Owns: the rows offered and the late rows of requests done behind one another, and
the run of a batch that is sent (`reservedRun_sent`) or refused
(`reservedRun_refused`).

Does not own: what a run owes its requests.
-/

namespace Nmas.Ai.Batches

open Nmas.Text List

def lateOf (offers : List Offer) : List LateRow :=
  (offers.filter (fun one => !one.isTaken)).map (fun one => one.row.late)

/-- What a reservation becomes once its rows were offered. -/
def closing (batchKey : Str) (offers : List Offer) : Reservations.Op :=
  if lateOf offers = [] then .settle batchKey else .holdUnrecorded batchKey (lateOf offers)

/-- The result of a request is read without raising. -/
def isReadable (lines : List Line) (one : Ready) : Bool :=
  match got lines one.customId with
  | some (.succeeded message) => (received one message).isSome
  | some .unhashable => false
  | _ => true

/-! ## Requests done -/

section

variable {record : Record}

def offeredFrom (record : Record) : ℕ → List Row → List Offer
  | _, [] => []
  | place, row :: rest => ⟨row, record place row⟩ :: offeredFrom record (place + 1) rest

def refusedFrom (record : Record) (rowOf : Ready → Row) (costOf : Ready → ℚ) :
    ℕ → List Ready → List LateRow
  | _, [] => []
  | place, one :: rest =>
    (if record place (rowOf one) then []
      else [{ (rowOf one).late with costUsd := costOf one }]) ++
      refusedFrom record rowOf costOf (place + 1) rest

theorem rows_offeredFrom (rows : List Row) (place : ℕ) :
    (offeredFrom record place rows).map Offer.row = rows := by
  induction rows generalizing place with
  | nil => rfl
  | cons row rows ih => rw [offeredFrom, map_cons, ih]

theorem customIds_offeredFrom (rows : List Row) (place : ℕ) :
    (offeredFrom record place rows).map (fun one => one.row.customId) = rows.map Row.customId := by
  have asRows : ((offeredFrom record place rows).map Offer.row).map Row.customId = _ :=
    congrArg (List.map Row.customId) (rows_offeredFrom rows place)
  rwa [map_map] at asRows

@[simp]
theorem length_offeredFrom (rows : List Row) (place : ℕ) :
    (offeredFrom record place rows).length = rows.length := by
  have asRows : ((offeredFrom record place rows).map Offer.row).length = rows.length :=
    congrArg List.length (rows_offeredFrom rows place)
  rwa [length_map] at asRows

theorem offeredFrom_append (front back : List Row) (place : ℕ) :
    offeredFrom record place (front ++ back) =
      offeredFrom record place front ++ offeredFrom record (place + front.length) back := by
  induction front generalizing place with
  | nil => rfl
  | cons row front ih =>
    rw [cons_append, offeredFrom, offeredFrom, ih, cons_append,
      length_cons, Nat.add_assoc, Nat.add_comm 1]

theorem lateOf_append (front back : List Offer) :
    lateOf (front ++ back) = lateOf front ++ lateOf back := by
  simp [lateOf]

theorem refusedFrom_stated {rowOf : Ready → Row} {costOf : Ready → ℚ}
    (isStated : ∀ one, costOf one = (rowOf one).costUsd) (ones : List Ready) (place : ℕ) :
    refusedFrom record rowOf costOf place ones =
      lateOf (offeredFrom record place (ones.map rowOf)) := by
  induction ones generalizing place with
  | nil => rfl
  | cons one ones ih =>
    rw [refusedFrom, ih, map_cons, offeredFrom, isStated]
    cases record place (rowOf one) <;> simp [lateOf, Row.late]

theorem Round.pending_done {round : Round} {one : Ready} {others : List Ready}
    (isPending : round.pending = one :: others)
    (nodup : (round.pending.map Ready.customId).Nodup) (row : Row) (costUsd : Option ℚ) :
    (round.done record one row costUsd).pending = others := by
  rw [isPending, map_cons, nodup_cons] at nodup
  rw [Round.done, isPending, filter_cons_of_neg (by simp), filter_eq_self]
  intro other isOther
  refine decide_eq_true fun same => nodup.1 ?_
  exact mem_map.mpr ⟨other, isOther, same⟩

theorem Round.foldl_done {rowOf : Ready → Row} {costOf : Ready → Option ℚ}
    (ones others : List Ready) (round : Round) (isPending : round.pending = ones ++ others)
    (nodup : (round.pending.map Ready.customId).Nodup) :
    ones.foldl (fun round one => round.done record one (rowOf one) (costOf one)) round =
      ⟨round.offers ++ offeredFrom record round.offers.length (ones.map rowOf), others,
        round.unrecorded ++ refusedFrom record rowOf (fun one => (costOf one).getD one.worst)
          round.offers.length ones⟩ := by
  induction ones generalizing round with
  | nil =>
    obtain ⟨offers, pending, unrecorded⟩ := round
    simp_all [offeredFrom, refusedFrom]
  | cons one ones ih =>
    have left : (round.done record one (rowOf one) (costOf one)).pending = ones ++ others :=
      pending_done isPending nodup _ _
    have stillNodup : ((ones ++ others).map Ready.customId).Nodup := by
      rw [isPending] at nodup
      exact (nodup_cons.mp nodup).2
    rw [foldl_cons, ih _ left (left ▸ stillNodup), map_cons, offeredFrom, refusedFrom]
    cases isTaken : record round.offers.length (rowOf one) <;> simp [Round.done, offer, isTaken]

def Round.stated (record : Record) (rowOf : Ready → Row) (round : Round) (one : Ready) : Round :=
  round.done record one (rowOf one) (some (rowOf one).costUsd)

theorem Round.foldl_stated {rowOf : Ready → Row} (ones others : List Ready) (round : Round)
    (isPending : round.pending = ones ++ others)
    (nodup : (round.pending.map Ready.customId).Nodup) :
    ones.foldl (Round.stated record rowOf) round =
      ⟨round.offers ++ offeredFrom record round.offers.length (ones.map rowOf), others,
        round.unrecorded ++ lateOf (offeredFrom record round.offers.length (ones.map rowOf))⟩ := by
  refine (foldl_done ones others round isPending nodup).trans ?_
  rw [refusedFrom_stated (fun one => Option.getD_some) ones]

def worstRow (batchId : Str) (verdict : Verdict) (one : Ready) : Row :=
  { one.sent batchId verdict one.worst with worstUsd := some one.worst }

def readRow (batchId : Str) (lines : List Line) (one : Ready) : Row :=
  match got lines one.customId with
  | none => worstRow batchId .batchMissing one
  | some (.succeeded message) =>
    match received one message with
    | some answer => one.sent batchId answer.1 answer.2
    | none => worstRow batchId .exception one
  | some (.notBilled kind) => { one.sent batchId (.notBilled kind) 0 with notBilled := true }
  | some .unnamed => worstRow batchId .batchUnknownResult one
  | some .unhashable => worstRow batchId .exception one

theorem customId_readRow (batchId : Str) (lines : List Line) (one : Ready) :
    (readRow batchId lines one).customId = one.customId := by
  unfold readRow
  split
  · rfl
  · split <;> rfl
  · rfl
  · rfl
  · rfl

theorem Round.read_eq (round : Round) (batchId : Str) (lines : List Line) (one : Ready) :
    round.read record batchId lines one =
      if isReadable lines one then some (round.stated record (readRow batchId lines) one)
      else none := by
  unfold Round.read isReadable Round.stated readRow
  cases got lines one.customId with
  | none => rfl
  | some result =>
    cases result with
    | succeeded message =>
      cases isReceived : received one message with
      | none => simp [isReceived]
      | some answer => simp [isReceived, Round.answered]
    | notBilled kind | unnamed | unhashable => rfl

theorem Round.readAll_eq (batchId : Str) (lines : List Line) (ones : List Ready) (round : Round) :
    Round.readAll record batchId lines ones round =
      ((ones.takeWhile (isReadable lines)).foldl
          (Round.stated record (readRow batchId lines)) round,
        !ones.all (isReadable lines)) := by
  induction ones generalizing round with
  | nil => rfl
  | cons one ones ih =>
    rw [Round.readAll, Round.read_eq]
    cases isRead : isReadable lines one with
    | false => simp [isRead]
    | true => simp [isRead, ih]

def statedRun (ask : Ask) (record : Record) (before : List Offer) (rows : List Row)
    (raised : Bool) : Run :=
  ⟨before, offeredFrom record before.length rows,
    some (closing ask.batchKey (offeredFrom record before.length rows)), raised⟩

theorem Round.worked {batchId : Str} {lines : List Line} {before : List Offer}
    {front back : List Ready} (verdict : Verdict)
    (nodup : ((front ++ back).map Ready.customId).Nodup) :
    back.foldl (Round.stated record (worstRow batchId verdict))
      (front.foldl (Round.stated record (readRow batchId lines)) ⟨before, front ++ back, []⟩) =
      ⟨before ++ offeredFrom record before.length
          (front.map (readRow batchId lines) ++ back.map (worstRow batchId verdict)), [],
        lateOf (offeredFrom record before.length
          (front.map (readRow batchId lines) ++ back.map (worstRow batchId verdict)))⟩ := by
  have nodupBack : (back.map Ready.customId).Nodup := by
    rw [map_append] at nodup
    exact (nodup_append.mp nodup).2.1
  rw [foldl_stated front back _ rfl nodup, foldl_stated back [] _ (append_nil back).symm
    nodupBack]
  simp [offeredFrom_append, lateOf_append]

theorem Round.excepted_eq (batchId : Str) :
    Round.excepted record batchId = Round.stated record (worstRow batchId .exception) := rfl

theorem Round.countedWorst_eq (batchId : Str) (verdict : Verdict) :
    Round.countedWorst record batchId verdict = Round.stated record (worstRow batchId verdict) :=
  rfl

end

/-- How far the results of a batch are read: not at all, or up to the first that
raises. -/
inductive Reading (provider : Provider) (ready : List Ready) :
    Str → List Line → Verdict → List Ready → List Ready → Prop
  | unread (batchId : Str) (lines : List Line) (verdict : Verdict)
      (noLines : ∀ batch lines, provider.create = .ok batch →
        outcome provider batch = some (.lines lines) → ∃ line ∈ lines, line.key = .unhashable) :
      Reading provider ready batchId lines verdict [] ready
  | read (batch : Batch) (lines : List Line) (isCreated : provider.create = .ok batch)
      (areLines : outcome provider batch = some (.lines lines))
      (hashable : ∀ line ∈ lines, line.key ≠ .unhashable) :
      Reading provider ready batch.id lines .exception (ready.takeWhile (isReadable lines))
        (ready.dropWhile (isReadable lines))

section

variable {ask : Ask} {record : Record} {provider : Provider} {before : List Offer}
  {ready : List Ready}

theorem Reading.ready_eq {batchId : Str} {lines : List Line} {verdict : Verdict}
    {front back : List Ready} (reading : Reading provider ready batchId lines verdict front back) :
    front ++ back = ready := by
  cases reading with
  | unread => rfl
  | read => exact takeWhile_append_dropWhile

theorem statedRun_eq (offers : List Offer) (raised : Bool) :
    (⟨before, (before ++ offers).drop before.length,
      (Round.mk (before ++ offers) [] (lateOf offers)).closed ask.batchKey, raised⟩ : Run) =
      ⟨before, offers, some (closing ask.batchKey offers), raised⟩ := by
  rw [drop_left, Round.closed, closing]
  cases lateOf offers <;> rfl

theorem reservedRun_sent (nodup : (ready.map Ready.customId).Nodup)
    (notRefused : ∀ error, provider.create ≠ .error (.adapter error)) :
    ∃ batchId lines verdict front back raised,
      Reading provider ready batchId lines verdict front back ∧
      reservedRun ask record provider before ready =
        some (statedRun ask record before
          (front.map (readRow batchId lines) ++ back.map (worstRow batchId verdict)) raised) := by
  have unread (batchId : Str) (verdict : Verdict) :
      ready.foldl (Round.stated record (worstRow batchId verdict)) ⟨before, ready, []⟩ =
        ⟨before ++ offeredFrom record before.length (ready.map (worstRow batchId verdict)), [],
          lateOf (offeredFrom record before.length (ready.map (worstRow batchId verdict)))⟩ :=
    @Round.worked record batchId [] before [] ready verdict nodup
  unfold reservedRun Round.attempt
  cases isCreated : provider.create with
  | error failure =>
    cases failure with
    | adapter error => exact absurd isCreated (notRefused error)
    | other =>
      refine ⟨[], [], .exception, [], ready, true, .unread _ _ _ ?_, ?_⟩
      · intro batch lines created
        rw [isCreated] at created
        cases created
      · simp only [if_true, Round.excepted_eq, unread, statedRun_eq]
        rfl
  | ok batch =>
    obtain ⟨read, isRead⟩ := outcome_ends provider batch
    have noLines
        (notLines : ∀ lines, read = .lines lines → ∃ line ∈ lines, line.key = .unhashable) :
        ∀ other lines, provider.create = .ok other →
          outcome provider other = some (.lines lines) →
            ∃ line ∈ lines, line.key = .unhashable := by
      intro other lines created isLines
      rw [isCreated] at created
      cases created
      rw [isRead] at isLines
      exact notLines lines (Option.some.inj isLines)
    simp only [isRead]
    cases read with
    | raised =>
      refine ⟨batch.id, [], .exception, [], ready, true, .unread _ _ _ (noLines (by simp)), ?_⟩
      simp only [if_true, Round.excepted_eq, unread, statedRun_eq]
      rfl
    | unfinished =>
      refine ⟨batch.id, [], .batchUnfinished, [], ready, false,
        .unread _ _ _ (noLines (by simp)), ?_⟩
      simp only [Bool.false_eq_true, if_false, Round.countedWorst_eq, unread, statedRun_eq]
      rfl
    | unread =>
      refine ⟨batch.id, [], .batchUnread, [], ready, false, .unread _ _ _ (noLines (by simp)), ?_⟩
      simp only [Bool.false_eq_true, if_false, Round.countedWorst_eq, unread, statedRun_eq]
      rfl
    | lines lines =>
      by_cases hashable : ∀ line ∈ lines, line.key ≠ .unhashable
      · have isWhole :
            ready.takeWhile (isReadable lines) ++ ready.dropWhile (isReadable lines) = ready :=
          takeWhile_append_dropWhile
        have worked : (ready.dropWhile (isReadable lines)).foldl
            (Round.stated record (worstRow batch.id .exception))
            ((ready.takeWhile (isReadable lines)).foldl
              (Round.stated record (readRow batch.id lines)) ⟨before, _, []⟩) = _ :=
          Round.worked .exception (isWhole.symm ▸ nodup)
        have left : ((ready.takeWhile (isReadable lines)).foldl
            (Round.stated record (readRow batch.id lines)) ⟨before, ready, []⟩).pending =
              ready.dropWhile (isReadable lines) := by
          rw [Round.foldl_stated _ _ _ isWhole.symm nodup]
        rw [isWhole] at worked
        refine ⟨batch.id, lines, .exception, _, _, !ready.all (isReadable lines),
          .read batch lines isCreated isRead hashable, ?_⟩
        have noneUnhashable : lines.any (fun line => line.key = .unhashable) = false := by
          simpa using hashable
        simp only [noneUnhashable, Bool.false_eq_true, if_false, Round.readAll_eq,
          Round.excepted_eq, left]
        cases isAll : ready.all (isReadable lines) with
        | false =>
          simp only [Bool.not_false, if_true, worked, statedRun_eq]
          rfl
        | true =>
          have nothingLeft : ready.dropWhile (isReadable lines) = [] :=
            dropWhile_eq_nil_iff.mpr (all_eq_true.mp isAll)
          rw [nothingLeft, foldl_nil] at worked
          simp only [Bool.not_true, Bool.false_eq_true, if_false, nothingLeft, worked, statedRun_eq]
          rfl
      · have someUnhashable : lines.any (fun line => line.key = .unhashable) = true := by
          simpa using hashable
        refine ⟨batch.id, [], .exception, [], ready, true,
          .unread _ _ _ (noLines fun others same => ?_), ?_⟩
        · cases same
          simpa using hashable
        · simp only [someUnhashable, if_true, Round.excepted_eq, unread, statedRun_eq]
          rfl

/-! ## A batch that is refused -/

theorem refusedFrom_eq_nil_iff {rowOf : Ready → Row} {costOf : Ready → ℚ} (ones : List Ready)
    (place : ℕ) :
    refusedFrom record rowOf costOf place ones = [] ↔
      ∀ number one, ones[number]? = some one → record (place + number) (rowOf one) := by
  induction ones generalizing place with
  | nil => simp [refusedFrom]
  | cons one ones ih =>
    rw [refusedFrom, append_eq_nil_iff, ih]
    constructor
    · rintro ⟨isTaken, others⟩ number other isOther
      cases number with
      | zero =>
        cases isOther
        simpa using isTaken
      | succ number =>
        rw [List.getElem?_cons_succ] at isOther
        rw [Nat.add_comm number, ← Nat.add_assoc]
        exact others number other isOther
    · intro all
      refine ⟨?_, fun number other isOther => ?_⟩
      · have isTaken : record place (rowOf one) := all 0 one rfl
        rw [if_pos isTaken]
      · rw [Nat.add_assoc, Nat.add_comm 1]
        exact all (number + 1) other (by rwa [List.getElem?_cons_succ])

theorem refusedFrom_eq_lateOf_iff {rowOf : Ready → Row} {costOf : Ready → ℚ}
    (isOther : ∀ one, costOf one ≠ (rowOf one).costUsd) (ones : List Ready) (place : ℕ) :
    refusedFrom record rowOf costOf place ones =
        lateOf (offeredFrom record place (ones.map rowOf)) ↔
      refusedFrom record rowOf costOf place ones = [] := by
  induction ones generalizing place with
  | nil => simp [refusedFrom, offeredFrom, lateOf]
  | cons one ones ih =>
    have others := ih (place + 1)
    rw [refusedFrom, map_cons, offeredFrom]
    cases isTaken : record place (rowOf one) with
    | true =>
      rw [if_pos rfl, nil_append, ← others]
      simp [lateOf]
    | false =>
      have differs : ({ (rowOf one).late with costUsd := costOf one } : LateRow) ≠
          (rowOf one).late := by
        intro same
        exact isOther one (congrArg LateRow.costUsd same)
      simp [lateOf, differs]

theorem reservedRun_refused {error : AdapterError} (nodup : (ready.map Ready.customId).Nodup)
    (isRefused : provider.create = .error (.adapter error)) :
    reservedRun ask record provider before ready =
      some ⟨before,
        offeredFrom record before.length (ready.map (fun one => one.row (.adapter error.kind))),
        (Round.mk [] [] (refusedFrom record (fun one => one.row (.adapter error.kind)) Ready.worst
          before.length ready)).closed ask.batchKey, false⟩ := by
  have attempted : ready.foldl (fun (round : Round) one =>
      round.done record one (one.row (.adapter error.kind)) none) ⟨before, ready, []⟩ = _ :=
    Round.foldl_done ready [] ⟨before, ready, []⟩ (append_nil ready).symm nodup
  unfold reservedRun Round.attempt
  simp only [isRefused, Bool.false_eq_true, if_false, Round.refuse, attempted, drop_left,
    Option.getD_none, nil_append]
  rfl

end

end Nmas.Ai.Batches
