import Nmas.Ai.Batches.Done

/-!
Contract: a batch's requests, each accounted for once.

Owns: what a run owes each request of the list, and when it gives it.

Does not own: what the reservations make of the call a run ends with.
-/

namespace Nmas.Ai.Batches

open Nmas.Text

/-! ## What is owed -/

def Ask.isReserved (ask : Ask) (record : Record) : Bool :=
  ask.isEvaluation && isShaped ask.requests && !(ask.prepare record).2.isEmpty &&
    ask.size (ask.prepare record).2 ≤ batchMaxBytes &&
    !ask.stopUsd.any (fun stopUsd => totalOf (ask.prepare record).2 > stopUsd) &&
    ask.reserves (totalOf (ask.prepare record).2)

/-- The provider said what it bills a request: it refused the batch, it does not
bill the request's result, or the result states its usage. -/
def isBillKnown (provider : Provider) (one : Ready) : Bool :=
  match provider.create with
  | .error (.adapter error) => !error.isUnanswered
  | .error .other => false
  | .ok batch =>
    match outcome provider batch with
    | some (.lines lines) =>
      match got lines one.customId with
      | some (.succeeded message) => message.statesUsage
      | some (.notBilled _) => true
      | _ => false
    | _ => false

/-- Every request is accounted for once. -/
structure Accounted (ask : Ask) (record : Record) (provider : Provider) (run : Run) : Prop where
  each : ((run.before ++ run.after).map (fun one => one.row.customId)).Perm
    (ask.requests.map Request.customId)
  reserved : ask.isReserved record →
    run.after.map (fun one => one.row.customId) = (ask.prepare record).2.map Ready.customId ∧
      run.closed = some (closing ask.batchKey run.after)
  unreserved : ask.isReserved record = false → run.after = [] ∧ run.closed = none
  worst : ∀ offered ∈ run.after, ∀ one ∈ (ask.prepare record).2,
    one.customId = offered.row.customId → isBillKnown provider one = false →
      offered.row.costUsd = one.worst

/-- What a batch that is reserved needs for its requests to be accounted for. A
batch the provider refused has each of its rows taken, and it was refused in so
many words; a result read as a success states its usage, or what it states is
the worst case. -/
structure Counts (ask : Ask) (record : Record) (provider : Provider) : Prop where
  refused : ∀ error, provider.create = .error (.adapter error) →
    error.isUnanswered = false ∧
      ∀ place one, (ask.prepare record).2[place]? = some one →
        record ((ask.prepare record).1.length + place) (one.row (.adapter error.kind)) = true
  stated : ∀ batch lines, provider.create = .ok batch →
    outcome provider batch = some (.lines lines) → (∀ line ∈ lines, line.key ≠ .unhashable) →
      ∀ one ∈ (ask.prepare record).2.takeWhile (isReadable lines), ∀ message,
        got lines one.customId = some (.succeeded message) → message.statesUsage ∨
          costOf one.prep.profile message = some one.worst

/-! ## Before the reservation -/

section

variable {ask : Ask} {record : Record} {provider : Provider}

@[simp]
theorem customIds_offer (offers : List Offer) (row : Row) :
    (offer record offers row).map (fun one => one.row.customId) =
      offers.map (fun one => one.row.customId) ++ [row.customId] := by
  simp [offer]

theorem customIds_foldl_offer {Item : Type} (rowOf : List Offer → Item → Row)
    (customId : Item → Str) (isOf : ∀ offers item, (rowOf offers item).customId = customId item)
    (items : List Item) (offers : List Offer) :
    (items.foldl (fun offers item => offer record offers (rowOf offers item)) offers).map
        (fun one => one.row.customId) =
      offers.map (fun one => one.row.customId) ++ items.map customId := by
  induction items generalizing offers with
  | nil => simp
  | cons item items ih =>
    rw [List.foldl_cons, ih, customIds_offer, isOf, List.map_cons,
      List.append_assoc, List.singleton_append]

theorem customIds_refusedWhole (verdict : Verdict) :
    (refusedWhole ask record verdict).map (fun one => one.row.customId) =
      ask.requests.map Request.customId := by
  unfold refusedWhole
  exact customIds_foldl_offer _ Request.customId (fun _ _ => rfl) ask.requests []

theorem customIds_refuseAll (verdict : Verdict) (ready : List Ready) (offers : List Offer) :
    (refuseAll record verdict ready offers).map (fun one => one.row.customId) =
      offers.map (fun one => one.row.customId) ++ ready.map Ready.customId := by
  unfold refuseAll
  exact customIds_foldl_offer _ Ready.customId (fun _ _ => rfl) ready offers

theorem customIds_prepare (ask : Ask) (record : Record) (requests : List Request)
    (offers : List Offer) :
    ((prepare ask record requests offers).1.map (fun one => one.row.customId) ++
      (prepare ask record requests offers).2.map Ready.customId).Perm
        (offers.map (fun one => one.row.customId) ++ requests.map Request.customId) := by
  induction requests generalizing offers with
  | nil => simp [prepare]
  | cons request rest ih =>
    have refused (row : Row) (isOf : row.customId = request.customId) :
        ((prepare ask record rest (offer record offers row)).1.map (fun one => one.row.customId) ++
          (prepare ask record rest (offer record offers row)).2.map Ready.customId).Perm
            (offers.map (fun one => one.row.customId) ++
              (request :: rest).map Request.customId) := by
      have others := ih (offer record offers row)
      rw [customIds_offer, isOf, List.append_assoc, List.singleton_append] at others
      exact others
    rw [prepare]
    split
    · exact refused _ rfl
    · rename_i prep _
      simp only
      split
      · exact refused _ rfl
      · simp only [List.map_cons]
        exact List.perm_middle.trans (((ih offers).cons _).trans List.perm_middle.symm)

theorem shapedFrom_nodup {requests : List Request} {seen : List Str}
    (shaped : shapedFrom seen requests) :
    (requests.map Request.customId).Nodup ∧ ∀ request ∈ requests, request.customId ∉ seen := by
  induction requests generalizing seen with
  | nil => simp
  | cons request rest ih =>
    simp only [shapedFrom, Bool.and_eq_true, Bool.not_eq_true', List.contains_eq_mem,
      decide_eq_false_iff_not] at shaped
    obtain ⟨⟨_, notSeen⟩, later⟩ := shaped
    obtain ⟨nodup, fresh⟩ := ih later
    constructor
    · rw [List.map_cons, List.nodup_cons]
      refine ⟨?_, nodup⟩
      intro member
      obtain ⟨other, isOther, same⟩ := List.mem_map.mp member
      exact fresh other isOther (by simp [same])
    · intro other member
      rcases List.mem_cons.mp member with rfl | isLater
      · exact notSeen
      · exact fun isSeen => fresh other isLater (.tail _ isSeen)

theorem nodup_prepare (shaped : isShaped ask.requests) :
    ((ask.prepare record).2.map Ready.customId).Nodup := by
  simp only [isShaped, Bool.and_eq_true] at shaped
  have whole := (customIds_prepare ask record ask.requests []).nodup_iff.mpr
    (shapedFrom_nodup shaped.2).1
  exact (List.nodup_append.mp whole).2.1

end

/-! ## After it -/

section

variable {ask : Ask} {record : Record} {provider : Provider} {ready : List Ready}

theorem askBatch_reserved (isReserved : ask.isReserved record) :
    askBatch ask record provider =
      reservedRun ask record provider (ask.prepare record).1 (ask.prepare record).2 := by
  simp only [Ask.isReserved, Bool.and_eq_true, Bool.not_eq_true', decide_eq_true_iff] at isReserved
  obtain ⟨⟨⟨⟨⟨isEvaluation, isShaped⟩, some⟩, fits⟩, below⟩, reserves⟩ := isReserved
  simp [askBatch, isEvaluation, isShaped, some, Nat.not_lt.mpr fits, below, reserves]

theorem askBatch_unreserved (notReserved : ask.isReserved record = false) :
    ∃ before, askBatch ask record provider = some ⟨before, [], none, false⟩ ∧
      (before.map (fun one => one.row.customId)).Perm (ask.requests.map Request.customId) := by
  have prepared := customIds_prepare ask record ask.requests []
  rw [List.map_nil, List.nil_append] at prepared
  have refused (verdict : Verdict) :
      ((refuseAll record verdict (ask.prepare record).2 (ask.prepare record).1).map
        (fun one => one.row.customId)).Perm (ask.requests.map Request.customId) := by
    rw [customIds_refuseAll]
    exact prepared
  have whole (verdict : Verdict) : ((refusedWhole ask record verdict).map
      (fun one => one.row.customId)).Perm (ask.requests.map Request.customId) := by
    rw [customIds_refusedWhole]
  unfold askBatch
  split
  · exact ⟨_, rfl, whole _⟩
  · rename_i isEvaluation
    split
    · exact ⟨_, rfl, whole _⟩
    · rename_i shaped
      dsimp only
      split
      · rename_i isEmpty
        refine ⟨_, rfl, ?_⟩
        rw [List.isEmpty_iff] at isEmpty
        rw [show (prepare ask record ask.requests []).2 = [] from isEmpty, List.map_nil,
          List.append_nil] at prepared
        exact prepared
      · rename_i someLeft
        split
        · exact ⟨_, rfl, refused _⟩
        · rename_i fits
          split
          · exact ⟨_, rfl, refused _⟩
          · rename_i below
            split
            · exact ⟨_, rfl, refused _⟩
            · rename_i reserves
              simp_all [Ask.isReserved]

/-! ## When each is accounted for -/

theorem accounted_iff {rows : List Row} {closed : Option Reservations.Op} {raised : Bool}
    (isReserved : ask.isReserved record)
    (sameIds : rows.map Row.customId = (ask.prepare record).2.map Ready.customId) :
    Accounted ask record provider ⟨(ask.prepare record).1,
        offeredFrom record (ask.prepare record).1.length rows, closed, raised⟩ ↔
      closed = some (closing ask.batchKey
        (offeredFrom record (ask.prepare record).1.length rows)) ∧
        ∀ row ∈ rows, ∀ one ∈ (ask.prepare record).2, one.customId = row.customId →
          isBillKnown provider one = false → row.costUsd = one.worst := by
  have rowsOf : (offeredFrom record (ask.prepare record).1.length rows).map Offer.row = rows :=
    rows_offeredFrom rows _
  constructor
  · intro accounted
    refine ⟨(accounted.reserved isReserved).2, fun row isRow => ?_⟩
    rw [← rowsOf] at isRow
    obtain ⟨offered, isOffered, rfl⟩ := List.mem_map.mp isRow
    exact accounted.worst offered isOffered
  · rintro ⟨isClosed, worst⟩
    constructor
    · rw [List.map_append, customIds_offeredFrom, sameIds]
      exact customIds_prepare ask record ask.requests []
    · intro _
      exact ⟨(customIds_offeredFrom _ _).trans sameIds, isClosed⟩
    · intro notReserved
      rw [isReserved] at notReserved
      cases notReserved
    · intro offered isOffered
      refine worst offered.row ?_
      rw [← rowsOf]
      exact List.mem_map.mpr ⟨offered, isOffered, rfl⟩

variable {batchId : Str} {lines : List Line} {verdict : Verdict} {front back : List Ready}

theorem Reading.customIds (reading : Reading provider ready batchId lines verdict front back) :
    (front.map (readRow batchId lines) ++ back.map (worstRow batchId verdict)).map Row.customId =
      ready.map Ready.customId := by
  rw [← reading.ready_eq, List.map_append, List.map_append, List.map_map, List.map_map]
  congr 1
  exact List.map_congr_left fun one _ => customId_readRow batchId lines one

theorem Reading.worst_iff (reading : Reading provider ready batchId lines verdict front back)
    (nodup : (ready.map Ready.customId).Nodup) :
    (∀ row ∈ front.map (readRow batchId lines) ++ back.map (worstRow batchId verdict),
      ∀ one ∈ ready, one.customId = row.customId → isBillKnown provider one = false →
        row.costUsd = one.worst) ↔
      ∀ one ∈ front, isBillKnown provider one = false →
        (readRow batchId lines one).costUsd = one.worst := by
  have inReady := reading.ready_eq
  constructor
  · intro all one isFront unknown
    refine all _ (List.mem_append_left _ (List.mem_map_of_mem isFront)) one ?_ ?_ unknown
    · rw [← inReady]
      exact List.mem_append_left _ isFront
    · exact (customId_readRow batchId lines one).symm
  · intro all row isRow one isOne same unknown
    rcases List.mem_append.mp isRow with isRead | isWorst
    · obtain ⟨other, isFront, rfl⟩ := List.mem_map.mp isRead
      have isOther : other ∈ ready := by
        rw [← inReady]
        exact List.mem_append_left _ isFront
      rw [customId_readRow] at same
      cases List.inj_on_of_nodup_map nodup isOne isOther same
      exact all one isFront unknown
    · obtain ⟨other, isBack, rfl⟩ := List.mem_map.mp isWorst
      have isOther : other ∈ ready := by
        rw [← inReady]
        exact List.mem_append_right _ isBack
      cases List.inj_on_of_nodup_map nodup isOne isOther same
      rfl

theorem costUsd_readRow (batchId : Str) {message : Message} {one : Ready}
    (isGot : got lines one.customId = some (.succeeded message)) (readable : isReadable lines one) :
    costOf one.prep.profile message = some (readRow batchId lines one).costUsd := by
  rw [isReadable, isGot] at readable
  obtain ⟨answer, isReceived⟩ := Option.isSome_iff_exists.mp readable
  rw [readRow, isGot]
  simp only [isReceived]
  rw [received] at isReceived
  cases isCost : costOf one.prep.profile message with
  | none =>
    rw [isCost] at isReceived
    cases isReceived
  | some cost =>
    rw [isCost] at isReceived
    cases isVerdict : verdictOf one.prep.schema message with
    | none =>
      rw [isVerdict] at isReceived
      cases isReceived
    | some verdict =>
      rw [isVerdict] at isReceived
      cases isReceived
      rfl

theorem Reading.counts_iff (reading : Reading provider ready batchId lines verdict front back) :
    (∀ one ∈ front, isBillKnown provider one = false →
      (readRow batchId lines one).costUsd = one.worst) ↔
      ∀ batch lines, provider.create = .ok batch →
        outcome provider batch = some (.lines lines) → (∀ line ∈ lines, line.key ≠ .unhashable) →
          ∀ one ∈ ready.takeWhile (isReadable lines), ∀ message,
            got lines one.customId = some (.succeeded message) → message.statesUsage ∨
              costOf one.prep.profile message = some one.worst := by
  cases reading with
  | unread _ _ _ noLines =>
    refine iff_of_true (by simp) fun batch lines isCreated areLines hashable => ?_
    obtain ⟨line, isLine, isUnhashable⟩ := noLines batch lines isCreated areLines
    exact absurd isUnhashable (hashable line isLine)
  | read batch _ isCreated areLines hashable =>
    constructor
    · intro all other others created isLines _ one isOne message isGot
      rw [isCreated] at created
      cases created
      rw [areLines] at isLines
      cases isLines
      cases states : message.statesUsage with
      | true => exact .inl rfl
      | false =>
        have unknown : isBillKnown provider one = false := by
          simp only [isBillKnown, isCreated, areLines, isGot]
          exact states
        right
        rw [costUsd_readRow batch.id isGot (List.mem_takeWhile_imp isOne), all one isOne unknown]
    · intro all one isOne unknown
      simp only [isBillKnown, isCreated, areLines] at unknown
      cases isGot : got lines one.customId with
      | none =>
        rw [readRow, isGot]
        rfl
      | some result =>
        rw [isGot] at unknown
        cases result with
        | succeeded message =>
          have isCost := costUsd_readRow batch.id isGot (List.mem_takeWhile_imp isOne)
          rcases all batch lines isCreated areLines hashable one isOne message isGot with
            states | isWorst
          · exact absurd states (by simp only [unknown, Bool.false_eq_true, not_false_iff])
          · exact Option.some.inj (isCost.symm.trans isWorst)
        | notBilled kind => cases unknown
        | unnamed | unhashable =>
          rw [readRow, isGot]
          rfl

theorem closed_eq_closing_iff {offers : List Offer} {unrecorded : List LateRow} :
    (Round.mk [] [] unrecorded).closed ask.batchKey = some (closing ask.batchKey offers) ↔
      unrecorded = lateOf offers := by
  rw [Round.closed, closing]
  cases unrecorded <;> cases lateOf offers <;> simp

theorem accounted_refused_iff {error : AdapterError} (isReserved : ask.isReserved record)
    (nodup : ((ask.prepare record).2.map Ready.customId).Nodup)
    (isRefused : provider.create = .error (.adapter error)) :
    (∃ run, reservedRun ask record provider (ask.prepare record).1 (ask.prepare record).2 =
      some run ∧ Accounted ask record provider run) ↔ Counts ask record provider := by
  have sameIds : ((ask.prepare record).2.map
      (fun one => one.row (.adapter error.kind))).map Row.customId =
        (ask.prepare record).2.map Ready.customId := by
    rw [List.map_map]
    rfl
  have notNothing (one : Ready) : one.worst ≠ (one.row (.adapter error.kind)).costUsd :=
    one.worst_pos.ne'
  have known (one : Ready) : isBillKnown provider one = !error.isUnanswered := by
    simp only [isBillKnown, isRefused]
  rw [reservedRun_refused nodup isRefused]
  simp only [Option.some.injEq, exists_eq_left', accounted_iff isReserved sameIds,
    closed_eq_closing_iff, refusedFrom_eq_lateOf_iff notNothing, refusedFrom_eq_nil_iff, known]
  constructor
  · rintro ⟨allTaken, worst⟩
    constructor
    · intro other created
      rw [isRefused] at created
      cases created
      refine ⟨?_, allTaken⟩
      obtain ⟨one, isOne⟩ : ∃ one, one ∈ (ask.prepare record).2 := by
        apply List.exists_mem_of_ne_nil
        intro isEmpty
        simp [Ask.isReserved, isEmpty] at isReserved
      by_contra unanswered
      rw [Bool.not_eq_false] at unanswered
      exact notNothing one (worst _ (List.mem_map_of_mem isOne) one isOne rfl
        (by rw [unanswered]; rfl)).symm
    · intro batch lines created
      rw [isRefused] at created
      cases created
  · intro counts
    obtain ⟨answered, allTaken⟩ := counts.refused error isRefused
    refine ⟨allTaken, fun row _ one _ _ unknown => ?_⟩
    rw [answered] at unknown
    cases unknown

/-- Each request of a batch is accounted for, unless the batch is reserved and a
row of it is counted at nothing or at less than it may cost. -/
theorem askBatch_accounts_iff (ask : Ask) (record : Record) (provider : Provider) :
    (∃ run, askBatch ask record provider = some run ∧ Accounted ask record provider run) ↔
      (ask.isReserved record → Counts ask record provider) := by
  cases isReserved : ask.isReserved record with
  | false =>
    obtain ⟨before, isRun, each⟩ := askBatch_unreserved isReserved
    refine iff_of_true ⟨_, isRun, ?_⟩ (by simp)
    constructor
    · simpa using each
    · intro reserved
      rw [isReserved] at reserved
      cases reserved
    · exact fun _ => ⟨rfl, rfl⟩
    · intro offered isOffered
      cases isOffered
  | true =>
    have shaped : isShaped ask.requests := by
      simp only [Ask.isReserved, Bool.and_eq_true] at isReserved
      exact isReserved.1.1.1.1.2
    have nodup : ((ask.prepare record).2.map Ready.customId).Nodup := nodup_prepare shaped
    rw [askBatch_reserved isReserved, forall_prop_of_true rfl]
    by_cases isRefused : ∃ error, provider.create = .error (.adapter error)
    · obtain ⟨error, isError⟩ := isRefused
      exact accounted_refused_iff isReserved nodup isError
    · have notRefused : ∀ error, provider.create ≠ .error (.adapter error) :=
        fun error isError => isRefused ⟨error, isError⟩
      obtain ⟨batchId, lines, verdict, front, back, raised, reading, isRun⟩ :=
        reservedRun_sent nodup notRefused
      rw [isRun]
      simp only [Option.some.injEq, exists_eq_left', statedRun]
      rw [accounted_iff isReserved reading.customIds, reading.worst_iff nodup,
        reading.counts_iff]
      constructor
      · rintro ⟨-, stated⟩
        exact ⟨fun error isError => absurd isError (notRefused error), stated⟩
      · exact fun counts => ⟨rfl, counts.stated⟩

end

/-! ## A batch that is refused, with a record that takes no row -/

def onePrep : Prep where
  id := ['r']
  profile := ⟨⟨1, 1, 1, 1, zero_le_one, one_pos⟩, none⟩
  promptTokens := 1
  maxTokens := 1
  maxTokensPos := Nat.one_pos
  schema _ := .valid

def oneAsk : Ask where
  requests := [⟨['a'], ['f'], true⟩]
  isEvaluation := true
  prepared _ := .ready onePrep
  newId _ := ['r']
  capPerCall _ := 1
  size _ := 0
  stopUsd := none
  batchKey := ['k']
  reserves _ := true

def noReads : Reads where
  state _ := .error .other
  ran polls := polls * batchPollS
  started := by simp
  slept polls := by
    rw [Nat.cast_succ, add_one_mul]

def busyProvider : Provider :=
  ⟨.error (.adapter ⟨.overloaded, 529⟩), noReads, .error .other, noReads, .error .other⟩

/-- The rows of a batch the provider refused say they cost nothing; where the
record does not take one, its late row says the worst case. -/
theorem refused_batch_kept :
    ¬ ∀ (ask : Ask) (record : Record) (provider : Provider), isShaped ask.requests →
      ∃ run, askBatch ask record provider = some run ∧ Accounted ask record provider run := by
  intro all
  have isReserved : oneAsk.isReserved (fun _ _ => false) = true := by decide +kernel
  have shaped : isShaped oneAsk.requests = true := by decide +kernel
  have run := all oneAsk (fun _ _ => false) busyProvider shaped
  rw [askBatch_reserved isReserved] at run
  have counts := (accounted_refused_iff isReserved (nodup_prepare shaped) rfl).mp run
  cases isReady : (oneAsk.prepare (fun _ _ => false)).2 with
  | nil => simp [Ask.isReserved, isReady] at isReserved
  | cons one others =>
    have isTaken := (counts.refused _ rfl).2 0 one (by rw [isReady]; rfl)
    cases isTaken

end Nmas.Ai.Batches
