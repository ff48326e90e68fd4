import Nmas.Alerts.Transitions

/-!
Contract: an episode for every interval.

Owns: the transitions of a set of firing intervals, and that `episodes` reads
the intervals back from them.
-/

namespace Nmas.Alerts

open Nmas.Text List

/-- A stretch of time an instance fires: from when, and until when if it ended. -/
structure Interval where
  identity : Identity
  since : Time
  ended : Option Time
deriving DecidableEq

namespace Interval

def rows (interval : Interval) : List Row :=
  .fires interval.identity interval.since :: interval.ended.toList.map (.resolves interval.identity)

def span (interval : Interval) : Identity × Time × Option Time :=
  (interval.identity, interval.since, interval.ended)

end Interval

/-- The transitions of all of them. -/
def journal (intervals : List Interval) : List Row := intervals.flatMap Interval.rows

structure Spaced (intervals : List Interval) : Prop where
  ends : ∀ interval ∈ intervals, ∀ ended ∈ interval.ended, interval.since ≤ ended
  apart : intervals.Pairwise (fun one other =>
    one.identity = other.identity → ∃ ended ∈ one.ended, ended < other.since)

variable {intervals : List Interval} {interval : Interval} {identity : Identity}

theorem mem_rows {row : Row} :
    row ∈ interval.rows ↔ row = .fires interval.identity interval.since ∨
      ∃ ended ∈ interval.ended, row = .resolves interval.identity ended := by
  unfold Interval.rows
  rw [mem_cons, mem_map]
  constructor
  · intro either
    rcases either with fires | ⟨ended, isEnded, same⟩
    · exact .inl fires
    · exact .inr ⟨ended, Option.mem_toList.mp isEnded, same.symm⟩
  · intro either
    rcases either with fires | ⟨ended, isEnded, same⟩
    · exact .inl fires
    · exact .inr ⟨ended, Option.mem_toList.mpr isEnded, same.symm⟩

theorem identity_of_mem_rows {row : Row} (member : row ∈ interval.rows) :
    row.identity = interval.identity := by
  rcases mem_rows.mp member with fires | ⟨ended, _, resolves⟩
  · rw [fires]
    rfl
  · rw [resolves]
    rfl

theorem isTransition_of_mem_journal {row : Row} (member : row ∈ journal intervals) :
    IsTransition row := by
  obtain ⟨interval, _, inRows⟩ := mem_flatMap.mp member
  rcases mem_rows.mp inRows with fires | ⟨ended, _, resolves⟩
  · rw [fires]
    exact .fires _ _
  · rw [resolves]
    exact .resolves _ _

theorem rowsOf_journal (intervals : List Interval) (identity : Identity) :
    rowsOf identity (journal intervals) = journal (intervals.filter (·.identity = identity)) := by
  induction intervals with
  | nil => rfl
  | cons interval rest ih =>
    have isSplit : journal (interval :: rest) = interval.rows ++ journal rest := flatMap_cons
    unfold rowsOf at ih ⊢
    rw [isSplit, filter_append, ih]
    by_cases same : interval.identity = identity
    · have kept : (interval :: rest).filter (·.identity = identity) =
          interval :: rest.filter (·.identity = identity) :=
        filter_cons_of_pos (decide_eq_true same)
      rw [kept]
      show _ = interval.rows ++ _
      congr 1
      apply filter_eq_self.mpr
      intro row member
      rw [identity_of_mem_rows member]
      exact decide_eq_true same
    · have dropped : (interval :: rest).filter (·.identity = identity) =
          rest.filter (·.identity = identity) :=
        filter_cons_of_neg (by rw [decide_eq_true_eq]; exact same)
      rw [dropped]
      have noRows : interval.rows.filter (·.identity = identity) = [] := by
        apply filter_eq_nil_iff.mpr
        intro row member
        rw [identity_of_mem_rows member, decide_eq_true_eq]
        exact same
      rw [noRows, nil_append]

theorem Spaced.filter (spaced : Spaced intervals) (keep : Interval → Bool) :
    Spaced (intervals.filter keep) :=
  ⟨fun interval member => spaced.ends interval (mem_filter.mp member).1,
    spaced.apart.sublist filter_sublist⟩

theorem Spaced.tail (spaced : Spaced (interval :: intervals)) : Spaced intervals :=
  ⟨fun other member => spaced.ends other (.tail _ member), (pairwise_cons.mp spaced.apart).2⟩

theorem Spaced.isLast (spaced : Spaced (interval :: intervals))
    (sameInstance : ∀ other ∈ interval :: intervals, other.identity = identity)
    (isOpen : interval.ended = none) : intervals = [] := by
  apply eq_nil_iff_forall_not_mem.mpr
  intro other member
  obtain ⟨ended, isEnded, _⟩ := (pairwise_cons.mp spaced.apart).1 other member
    ((sameInstance interval (.head _)).trans (sameInstance other (.tail _ member)).symm)
  rw [isOpen] at isEnded
  cases isEnded

/-! ### The transitions of one instance -/

section OneInstance

variable (spaced : Spaced intervals) (sameInstance : ∀ interval ∈ intervals,
  interval.identity = identity)
include spaced sameInstance

theorem journal_increasing :
    (journal intervals).Pairwise (fun one other => one.mark < other.mark) := by
  unfold journal
  rw [pairwise_flatMap]
  constructor
  · intro interval member
    unfold Interval.rows
    cases isEnded : interval.ended with
    | none => exact pairwise_singleton _ _
    | some ended =>
      apply pairwise_pair.mpr
      rw [fires_mark, resolves_mark, Prod.Lex.toLex_lt_toLex]
      rcases lt_or_eq_of_le (spaced.ends interval member ended isEnded) with less | same
      · exact .inl less
      · exact .inr ⟨same, Bool.false_lt_true⟩
  · apply spaced.apart.imp_of_mem
    intro one other oneMember otherMember apart
    obtain ⟨ended, isEnded, before⟩ :=
      apart ((sameInstance one oneMember).trans (sameInstance other otherMember).symm)
    have laterMark : ∀ row ∈ other.rows, toLex (other.since, false) ≤ row.mark := by
      intro row inRows
      rcases mem_rows.mp inRows with fires | ⟨otherEnded, isOtherEnded, resolves⟩
      · rw [fires, fires_mark]
      · rw [resolves, resolves_mark, Prod.Lex.toLex_le_toLex]
        rcases lt_or_eq_of_le (spaced.ends other otherMember otherEnded isOtherEnded)
          with less | same
        · exact .inl less
        · exact .inr ⟨same, Bool.false_le true⟩
    have earlierMark : ∀ row ∈ one.rows, row.mark ≤ toLex (ended, true) := by
      intro row inRows
      rcases mem_rows.mp inRows with fires | ⟨oneEnded, isOneEnded, resolves⟩
      · rw [fires, fires_mark, Prod.Lex.toLex_le_toLex]
        rcases lt_or_eq_of_le (spaced.ends one oneMember ended isEnded) with less | same
        · exact .inl less
        · exact .inr ⟨same, Bool.false_le true⟩
      · rw [resolves, resolves_mark]
        have same : oneEnded = ended := Option.some.inj (isOneEnded.symm.trans isEnded)
        rw [same]
    intro row inOne row' inOther
    apply lt_of_le_of_lt (earlierMark row inOne)
    apply lt_of_lt_of_le _ (laterMark row' inOther)
    rw [Prod.Lex.toLex_lt_toLex]
    exact .inl before

omit spaced sameInstance in
theorem journal_opens (intervals : List Interval) (before : List Row) (row : Row) (after : List Row)
    (isSplit : journal intervals = before ++ row :: after) (isNormal : row.to_ = .normal) :
    ∃ earlier fired, before = earlier ++ [fired] ∧ fired.to_ ≠ .normal := by
  induction intervals generalizing before with
  | nil => simp [journal] at isSplit
  | cons interval rest ih =>
    have isCons : journal (interval :: rest) =
        .fires interval.identity interval.since ::
          (interval.ended.toList.map (.resolves interval.identity) ++ journal rest) := by
      unfold journal Interval.rows
      rw [flatMap_cons]
      rfl
    rw [isCons] at isSplit
    cases before with
    | nil =>
      injection isSplit with isRow _
      rw [← isRow] at isNormal
      cases isNormal
    | cons first before =>
      injection isSplit with isFirst isRest
      cases isEnded : interval.ended with
      | none =>
        rw [isEnded] at isRest
        obtain ⟨earlier, fired, isBefore, notNormal⟩ := ih before isRest
        exact ⟨first :: earlier, fired, by rw [isBefore]; rfl, notNormal⟩
      | some ended =>
        rw [isEnded] at isRest
        cases before with
        | nil =>
          refine ⟨[], first, rfl, ?_⟩
          rw [← isFirst]
          intro isNormal
          cases isNormal
        | cons second before =>
          injection isRest with _ isTail
          obtain ⟨earlier, fired, isBefore, notNormal⟩ := ih before isTail
          exact ⟨first :: second :: earlier, fired, by rw [isBefore]; rfl, notNormal⟩

theorem journal_transitions : Transitions (journal intervals) :=
  ⟨journal_increasing spaced sameInstance, journal_opens intervals⟩

theorem stretches_journal (ongoing : Bool) :
    (stretches ongoing none ((journal intervals).map Row.kept)).map Episode.span =
      intervals.map Interval.span := by
  induction intervals with
  | nil => rfl
  | cons interval rest ih =>
    have restSpans := ih spaced.tail (fun other member =>
      sameInstance other (.tail _ member))
    have isCons : journal (interval :: rest) =
        .fires interval.identity interval.since ::
          (interval.ended.toList.map (.resolves interval.identity) ++ journal rest) := by
      unfold journal Interval.rows
      rw [flatMap_cons]
      rfl
    rw [isCons]
    cases isEnded : interval.ended with
    | some ended =>
      show (_, _, some ended) :: _ = (interval.identity, interval.since, interval.ended) :: _
      rw [isEnded]
      exact congrArg _ restSpans
    | none =>
      rw [spaced.isLast sameInstance isEnded]
      show [(_, _, none)] = [(interval.identity, interval.since, interval.ended)]
      rw [isEnded]
      rfl

end OneInstance

/-! ### Every instance -/

theorem perm_flatMap_filter {α β : Type} [DecidableEq β] (keyOf : α → β) (keys : List β)
    (distinct : keys.Nodup) (items : List α) (known : ∀ item ∈ items, keyOf item ∈ keys) :
    (keys.flatMap (fun key => items.filter (keyOf · = key))).Perm items := by
  induction keys generalizing items with
  | nil =>
    have isEmpty : items = [] :=
      eq_nil_iff_forall_not_mem.mpr (fun item member =>
        absurd (known item member) not_mem_nil)
    rw [isEmpty]
    exact .refl _
  | cons key rest ih =>
    obtain ⟨fresh, restDistinct⟩ := nodup_cons.mp distinct
    have others := ih restDistinct (items.filter (fun item =>
        !decide (keyOf item = key))) (by
      intro item member
      obtain ⟨inItems, differs⟩ := mem_filter.mp member
      rcases mem_cons.mp (known item inItems) with same | inRest
      · rw [decide_eq_true same] at differs
        cases differs
      · exact inRest)
    have sameParts : rest.flatMap (fun other => items.filter (keyOf · = other)) =
        rest.flatMap (fun other => (items.filter (fun item =>
          !decide (keyOf item = key))).filter (keyOf · = other)) := by
      apply flatMap_congr
      intro other member
      rw [filter_filter]
      apply filter_congr
      intro item _
      by_cases same : keyOf item = other
      · have differs : keyOf item ≠ key := by
          intro isKey
          rw [← isKey, same] at fresh
          exact fresh member
        simp [same ▸ differs, same]
      · simp [same]
    rw [flatMap_cons, sameParts]
    exact (List.Perm.append_left _ others).trans
      (filter_append_perm (fun item => decide (keyOf item = key)) items)

/-- **An episode for every interval.** A store that holds, for every instance,
the transitions of its intervals in their order, is read as exactly the
intervals. -/
theorem episodes_perm {rows : List Row} (spaced : Spaced intervals)
    (holds : ∀ identity, rowsOf identity rows =
      (rowsOf identity (journal intervals)).map Row.kept) (firingNow : Identity → Bool) :
    ((episodes rows firingNow).map Episode.span).Perm (intervals.map Interval.span) := by
  have known : ∀ interval ∈ intervals, interval.identity ∈ (rows.map Row.identity).eraseDups := by
    intro interval member
    rw [mem_eraseDups, mem_map]
    have inJournal : Row.fires interval.identity interval.since ∈ journal intervals :=
      mem_flatMap.mpr ⟨interval, member, .head _⟩
    have inRows : (Row.fires interval.identity interval.since).kept ∈
        rowsOf interval.identity rows := by
      rw [holds]
      exact mem_map_of_mem (mem_rowsOf.mpr ⟨inJournal, rfl⟩)
    exact ⟨_, (mem_rowsOf.mp inRows).1, rfl⟩
  have oneInstance : ∀ identity,
      (stretches (firingNow identity) none
          (inOrder (rows.filter (·.identity = identity)))).map Episode.span =
        (intervals.filter (·.identity = identity)).map Interval.span := by
    intro identity
    have same : ∀ interval ∈ intervals.filter (·.identity = identity),
        interval.identity = identity := fun interval member =>
      of_decide_eq_true (mem_filter.mp member).2
    have isRows : rows.filter (·.identity = identity) =
        (journal (intervals.filter (·.identity = identity))).map Row.kept := by
      rw [← rowsOf_journal, ← holds]
      rfl
    have sorted : ((journal (intervals.filter (·.identity = identity))).map Row.kept).Pairwise
        (fun one other => one.mark ≤ other.mark) := by
      rw [pairwise_map]
      exact (journal_increasing (spaced.filter _) same).imp le_of_lt
    rw [isRows, inOrder, List.Pairwise.insertionSort_eq sorted]
    exact stretches_journal (spaced.filter _) same _
  unfold episodes
  apply ((perm_insertionSort _ _).map _).trans
  rw [map_flatMap]
  have parts : (rows.map Row.identity).eraseDups.flatMap (fun identity =>
      (stretches (firingNow identity) none
        (inOrder (rows.filter (·.identity = identity)))).map Episode.span) =
      ((rows.map Row.identity).eraseDups.flatMap (fun identity =>
        intervals.filter (·.identity = identity))).map Interval.span := by
    rw [map_flatMap]
    exact flatMap_congr (fun identity _ => oneInstance identity)
  rw [parts]
  exact (perm_flatMap_filter Interval.identity _ (nodup_eraseDups _) intervals known).map _

end Nmas.Alerts
