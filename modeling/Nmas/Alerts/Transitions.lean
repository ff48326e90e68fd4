import Mathlib.Order.MinMax
import Nmas.Alerts.History

/-!
Contract: the transitions of one instance, offered until they are kept.

Owns: what an instance's transitions are when every resolve follows the state
it ends, and that `record` then keeps them in their order, however often it
fails and is asked again.

The rows an instance should have are its journal. The store holds a prefix of
it at every moment, and what is offered holds the rest.
-/

namespace Nmas.Alerts

open Nmas.Text List

/-- A row as `from_detections` makes it. -/
inductive IsTransition : Row → Prop where
  | fires (identity : Identity) (at_ : Time) : IsTransition (.fires identity at_)
  | resolves (identity : Identity) (at_ : Time) : IsTransition (.resolves identity at_)

theorem fires_mark (identity : Identity) (at_ : Time) :
    (Row.fires identity at_).mark = toLex (at_, false) := rfl

theorem resolves_mark (identity : Identity) (at_ : Time) :
    (Row.resolves identity at_).mark = toLex (at_, true) := rfl

theorem kept_key (row : Row) : row.kept.key = row.key := rfl

theorem kept_mark (row : Row) : row.kept.mark = row.mark := rfl

theorem eq_of_key_eq {one other : Row} (isOne : IsTransition one) (isOther : IsTransition other)
    (same : one.key = other.key) : one = other := by
  have words : ("Alerting".ascii |> strip).map Char.toLower ≠
      ("Normal".ascii |> strip).map Char.toLower := by decide
  cases isOne with
  | fires identity at_ =>
    cases isOther with
    | fires identity' at' =>
      injection same with sameIdentity _ sameAt
      have sameIdentity : identity = identity' := sameIdentity
      have sameAt : at_ = at' := sameAt
      rw [sameIdentity, sameAt]
    | resolves identity' at' =>
      injection same with _ sameState _
      exact absurd sameState words
  | resolves identity at_ =>
    cases isOther with
    | fires identity' at' =>
      injection same with _ sameState _
      exact absurd sameState.symm words
    | resolves identity' at' =>
      injection same with sameIdentity _ sameAt
      have sameIdentity : identity = identity' := sameIdentity
      have sameAt : at_ = at' := sameAt
      rw [sameIdentity, sameAt]

structure Transitions (rows : List Row) : Prop where
  increasing : rows.Pairwise (fun one other => one.mark < other.mark)
  opens : ∀ before row after, rows = before ++ row :: after → row.to_ = .normal →
    ∃ earlier fired, before = earlier ++ [fired] ∧ fired.to_ ≠ .normal

/-! ### The store holds a prefix -/

def rowsOf (identity : Identity) (rows : List Row) : List Row := rows.filter (·.identity = identity)

/-- What the store and what is still offered make of the journal's instances. -/
structure Holds (journal : List Row) (ours : Identity → Prop) (history offered : List Row) :
    Prop where
  isPrefix : ∀ identity, ours identity →
    rowsOf identity history <+: (rowsOf identity journal).map Row.kept
  rest : ∀ row ∈ journal, row.kept ∈ history ∨ row ∈ offered

structure IsJournal (journal : List Row) (ours : Identity → Prop) : Prop where
  isOurs : ∀ row ∈ journal, ours row.identity
  transition : ∀ row ∈ journal, IsTransition row
  transitions : ∀ identity, Transitions (rowsOf identity journal)

section Record

variable {journal history offered : List Row} {ours : Identity → Prop} {row : Row}

theorem mem_rowsOf {identity : Identity} {rows : List Row} :
    row ∈ rowsOf identity rows ↔ row ∈ rows ∧ row.identity = identity := by
  unfold rowsOf
  rw [mem_filter, decide_eq_true_eq]

theorem kept_of_held (isJournal : IsJournal journal ours)
    (holds : Holds journal ours history offered) (member : row ∈ journal) (isHeld : held history row) : row.kept ∈ history := by
  obtain ⟨stored, inHistory, sameKey⟩ := any_eq_true.mp isHeld
  have sameKey : stored.key = row.key := of_decide_eq_true sameKey
  have sameIdentity : stored.identity = row.identity := congrArg TransitionKey.identity sameKey
  have inRows : stored ∈ rowsOf row.identity history := mem_rowsOf.mpr ⟨inHistory, sameIdentity⟩
  have inJournal := (holds.isPrefix row.identity (isJournal.isOurs row member)).subset inRows
  obtain ⟨other, otherMember, isStored⟩ := mem_map.mp inJournal
  have inOurs := (mem_rowsOf.mp otherMember).1
  have same : other = row := by
    apply eq_of_key_eq (isJournal.transition other inOurs) (isJournal.transition row member)
    rw [← kept_key other, isStored, sameKey]
  rw [same] at isStored
  rw [isStored]
  exact inHistory

theorem eq_before_of_prefix {α : Type} {held before : List α} (next : α) (after : List α)
    (isPrefix : held <+: before ++ next :: after) (distinct : before.Nodup)
    (holdsBefore : ∀ item ∈ before, item ∈ held) (notNext : next ∉ held) : held = before := by
  have short : held <+: before := by
    rcases Nat.lt_or_ge before.length held.length with long | short
    · have whole : before ++ [next] <+: held := by
        apply prefix_of_prefix_length_le _ isPrefix
        · rw [length_append, length_singleton]
          exact long
        · exact ⟨after, by rw [append_assoc]; rfl⟩
      exact absurd (whole.subset (mem_append_right _ (.head _))) notNext
    · exact prefix_of_prefix_length_le isPrefix (prefix_append _ _) short
  apply short.eq_of_length_le
  exact (subperm_of_subset distinct holdsBefore).length_le

theorem rowsOf_eq_before (isJournal : IsJournal journal ours)
    (holds : Holds journal ours history (row :: offered)) (member : row ∈ journal)
    (later : ∀ other ∈ offered, row.mark ≤ other.mark) (notHeld : held history row = false) :
    ∃ before after, rowsOf row.identity journal = before ++ row :: after ∧
      rowsOf row.identity history = before.map Row.kept := by
  have inRows : row ∈ rowsOf row.identity journal := mem_rowsOf.mpr ⟨member, rfl⟩
  obtain ⟨before, after, isSplit⟩ := append_of_mem inRows
  have increasing := (isJournal.transitions row.identity).increasing
  rw [isSplit] at increasing
  have earlier : ∀ other ∈ before, other.mark < row.mark := fun other inBefore =>
    (pairwise_append.mp increasing).2.2 other inBefore row (.head _)
  refine ⟨before, after, isSplit, ?_⟩
  apply eq_before_of_prefix row.kept (after.map Row.kept)
  · have isPrefix := holds.isPrefix row.identity (isJournal.isOurs row member)
    rw [isSplit, map_append, map_cons] at isPrefix
    exact isPrefix
  · rw [nodup_iff_pairwise_ne, pairwise_map]
    apply (pairwise_append.mp increasing).1.imp
    intro one other less same
    have sameMark := congrArg Row.mark same
    rw [kept_mark, kept_mark] at sameMark
    exact absurd sameMark (ne_of_lt less)
  · intro item inMap
    obtain ⟨other, inBefore, rfl⟩ := mem_map.mp inMap
    have otherRows : other ∈ rowsOf row.identity journal := by
      rw [isSplit]
      exact mem_append_left _ inBefore
    obtain ⟨otherMember, sameIdentity⟩ := mem_rowsOf.mp otherRows
    rcases holds.rest other otherMember with kept | waiting
    · exact mem_rowsOf.mpr ⟨kept, sameIdentity⟩
    · have less := earlier other inBefore
      rcases mem_cons.mp waiting with same | inOffered
      · rw [same] at less
        exact absurd less (lt_irrefl _)
      · exact absurd less (not_lt.mpr (later other inOffered))
  · intro inHistory
    have isHeld : held history row :=
      any_eq_true.mpr ⟨row.kept, (mem_rowsOf.mp inHistory).1, decide_eq_true rfl⟩
    rw [notHeld] at isHeld
    cases isHeld

theorem lastMark_eq {identity : Identity} {earlier : List Row} {last : Row}
    (isRows : rowsOf identity history = (earlier ++ [last]).map Row.kept)
    (increasing : (earlier ++ [last]).Pairwise (fun one other => one.mark < other.mark)) :
    lastMark history identity = some last.mark := by
  unfold lastMark
  show ((rowsOf identity history).map Row.mark).max? = some last.mark
  rw [isRows, map_map, List.max?_eq_some_iff]
  constructor
  · exact mem_map.mpr ⟨last, mem_append_right _ (.head _), rfl⟩
  · intro mark inMarks
    obtain ⟨row, member, rfl⟩ := mem_map.mp inMarks
    rcases mem_append.mp member with before | same
    · exact le_of_lt ((pairwise_append.mp increasing).2.2 row before last (.head _))
    · rw [mem_singleton.mp same]
      exact le_refl _

theorem opened_of_transitions {before after : List Row}
    (transitions : Transitions (before ++ row :: after)) (isNormal : row.to_ = .normal)
    (isRows : rowsOf row.identity history = before.map Row.kept) : opened history row := by
  obtain ⟨earlier, fired, isBefore, notNormal⟩ := transitions.opens before row after rfl isNormal
  have increasing := transitions.increasing
  rw [isBefore] at isRows increasing
  have isLast := lastMark_eq isRows (pairwise_append.mp increasing).1
  have less : fired.mark < row.mark := (pairwise_append.mp increasing).2.2 fired
    (mem_append_right _ (.head _)) row (.head _)
  have firedFalse : fired.mark = toLex (fired.at_, false) := by
    unfold Row.mark
    rw [decide_eq_false notNormal]
  have rowTrue : row.mark = toLex (row.at_, true) := by
    unfold Row.mark
    rw [decide_eq_true isNormal]
  rw [firedFalse, rowTrue, Prod.Lex.toLex_lt_toLex] at less
  unfold opened
  rw [isLast, firedFalse, Option.any_some]
  show (!false && decide (fired.at_ ≤ row.at_)) = true
  rw [Bool.not_false, Bool.true_and, decide_eq_true_eq]
  rcases less with earlierThan | ⟨same, _⟩
  · exact le_of_lt earlierThan
  · exact le_of_eq same

theorem Holds.append (isJournal : IsJournal journal ours)
    (holds : Holds journal ours history (row :: offered)) (member : row ∈ journal)
    (later : ∀ other ∈ offered, row.mark ≤ other.mark) (notHeld : held history row = false) :
    Holds journal ours (history ++ [row.kept]) offered := by
  obtain ⟨before, after, isSplit, isRows⟩ := rowsOf_eq_before isJournal holds member later notHeld
  constructor
  · intro identity isOurs
    unfold rowsOf
    rw [filter_append]
    by_cases same : row.identity = identity
    · rw [← same]
      show rowsOf row.identity history ++ _ <+: (rowsOf row.identity journal).map Row.kept
      have isOne : [row.kept].filter (·.identity = row.identity) = [row.kept] :=
        filter_cons_of_pos (decide_eq_true (show row.kept.identity = row.identity from rfl))
      rw [isRows, isSplit, map_append, map_cons, isOne]
      exact ⟨after.map Row.kept, by rw [append_assoc]; rfl⟩
    · have isNone : [row.kept].filter (·.identity = identity) = [] := by
        apply filter_cons_of_neg
        rw [decide_eq_true_eq]
        exact same
      rw [isNone, append_nil]
      exact holds.isPrefix identity isOurs
  · intro other inJournal
    rcases holds.rest other inJournal with kept | waiting
    · exact .inl (mem_append_left _ kept)
    · rcases mem_cons.mp waiting with same | inOffered
      · rw [same]
        exact .inl (mem_append_right _ (.head _))
      · exact .inr inOffered

theorem Holds.skip (isJournal : IsJournal journal ours)
    (holds : Holds journal ours history (row :: offered)) (member : row ∈ journal)
    (isHeld : held history row) : Holds journal ours history offered := by
  constructor
  · exact holds.isPrefix
  · intro other inJournal
    rcases holds.rest other inJournal with kept | waiting
    · exact .inl kept
    · rcases mem_cons.mp waiting with same | inOffered
      · rw [same]
        exact .inl (kept_of_held isJournal holds member isHeld)
      · exact .inr inOffered

/-- What `record` leaves: the store grown by rows of the journal alone, a prefix
for every instance as before, and every row there once it answers that it could. -/
structure Recorded (journal : List Row) (ours : Identity → Prop) (history : List Row)
    (result : List Row × Bool) : Prop where
  grown : ∃ added, result.1 = history ++ added ∧ ∀ row ∈ added, ours row.identity
  isPrefix : ∀ identity, ours identity →
    rowsOf identity result.1 <+: (rowsOf identity journal).map Row.kept
  complete : result.2 = true → ∀ row ∈ journal, row.kept ∈ result.1

theorem recordFrom_recorded (isJournal : IsJournal journal ours) (room : Option Nat)
    (members : ∀ row ∈ offered, row ∈ journal)
    (sorted : offered.Pairwise (fun one other => one.mark ≤ other.mark))
    (holds : Holds journal ours history offered) :
    Recorded journal ours history (recordFrom history room offered) := by
  induction offered generalizing history room with
  | nil =>
    unfold recordFrom
    refine ⟨⟨[], (append_nil _).symm, nofun⟩, holds.isPrefix, ?_⟩
    intro _ row inJournal
    rcases holds.rest row inJournal with kept | waiting
    · exact kept
    · cases waiting
  | cons row rest ih =>
    have member := members row (.head _)
    have restMembers : ∀ other ∈ rest, other ∈ journal :=
      fun other inRest => members other (.tail _ inRest)
    have later := (pairwise_cons.mp sorted).1
    have restSorted := (pairwise_cons.mp sorted).2
    cases isHeld : held history row with
    | true =>
      unfold recordFrom
      rw [isHeld, if_pos rfl]
      exact ih room restMembers restSorted (holds.skip isJournal member isHeld)
    | false =>
      have accepted : (row.requiresOpen && !opened history row) = false := by
        cases isRequired : row.requiresOpen with
        | false => rfl
        | true =>
          have isNormal : row.to_ = .normal := by
            cases isJournal.transition row member with
            | fires identity at_ => cases isRequired
            | resolves identity at_ => rfl
          obtain ⟨before, after, isSplit, isRows⟩ :=
            rowsOf_eq_before isJournal holds member later isHeld
          have transitions := isJournal.transitions row.identity
          rw [isSplit] at transitions
          rw [opened_of_transitions transitions isNormal isRows]
          rfl
      have appended := holds.append isJournal member later isHeld
      have written : ∀ room', Recorded journal ours history
          (recordFrom (history ++ [row.kept]) room' rest) := by
        intro room'
        obtain ⟨⟨added, isGrown, areOurs⟩, isPrefix, complete⟩ :=
          ih room' restMembers restSorted appended
        refine ⟨⟨row.kept :: added, ?_, ?_⟩, isPrefix, complete⟩
        · rw [isGrown, append_assoc]
          rfl
        · intro other inAdded
          rcases mem_cons.mp inAdded with same | inRest
          · rw [same]
            exact isJournal.isOurs row member
          · exact areOurs other inRest
      unfold recordFrom
      rw [isHeld, accepted, if_neg Bool.false_ne_true, if_neg Bool.false_ne_true]
      cases room with
      | none => exact written none
      | some left =>
        cases left with
        | succ left => exact written (some left)
        | zero =>
          refine ⟨⟨[], (append_nil _).symm, nofun⟩, holds.isPrefix, ?_⟩
          intro isOk
          cases isOk

/-- **Offered until kept**: however the store fails, `record` keeps the journal's
rows in their order, and all of them once it answers that it could. -/
theorem record_recorded (isJournal : IsJournal journal ours) (refusal : Option Refusal)
    (members : ∀ row ∈ offered, row ∈ journal) (holds : Holds journal ours history offered) :
    Recorded journal ours history (record history refusal offered) := by
  have inOrderMembers : ∀ row ∈ inOrder offered, row ∈ journal := by
    intro row inSorted
    exact members row ((mem_insertionSort _).mp inSorted)
  have sorted : (inOrder offered).Pairwise (fun one other => one.mark ≤ other.mark) := by
    have : Std.Total (fun one other : Row => one.mark ≤ other.mark) :=
      ⟨fun one other => le_total one.mark other.mark⟩
    have : IsTrans Row (fun one other => one.mark ≤ other.mark) := ⟨fun one other third => le_trans⟩
    exact pairwise_insertionSort _ offered
  have holdsSorted : Holds journal ours history (inOrder offered) := by
    constructor
    · exact holds.isPrefix
    · intro row inJournal
      rcases holds.rest row inJournal with kept | waiting
      · exact .inl kept
      · exact .inr ((mem_insertionSort _).mpr waiting)
  unfold record
  split
  · refine ⟨⟨[], (append_nil _).symm, nofun⟩, holds.isPrefix, ?_⟩
    intro isOk
    cases isOk
  · exact recordFrom_recorded isJournal _ inOrderMembers sorted holdsSorted
  · exact recordFrom_recorded isJournal _ inOrderMembers sorted holdsSorted

end Record

end Nmas.Alerts
