import Nmas.Alerts.Episodes

/-!
Contract: the firing intervals from one moment to the next.

Owns: what a moment does to the intervals, when it keeps them apart, and what
it adds to their transitions: to those of one instance only after the ones
before.
-/

namespace Nmas.Alerts

open List

/-- An interval at a moment: one whose instance no longer fires has ended. -/
def Interval.close (goesOn : Identity → Bool) (at_ : Time) (interval : Interval) : Interval :=
  if interval.ended = none ∧ goesOn interval.identity = false then
    { interval with ended := some at_ }
  else interval

def Interval.begin (started : Identity × Time) : Interval := ⟨started.1, started.2, none⟩

def advance (intervals : List Interval) (goesOn : Identity → Bool) (at_ : Time)
    (started : List (Identity × Time)) : List Interval :=
  intervals.map (Interval.close goesOn at_) ++ started.map Interval.begin

structure StartsAfter (intervals : List Interval) (started : List (Identity × Time)) : Prop where
  once : (started.map Prod.fst).Nodup
  apart : ∀ new ∈ started, ∀ interval ∈ intervals, interval.identity = new.1 →
    ∃ ended ∈ interval.ended, ended < new.2

variable {intervals : List Interval} {interval : Interval} {goesOn : Identity → Bool}
  {at_ : Time} {started : List (Identity × Time)} {identity : Identity}

theorem close_identity : (interval.close goesOn at_).identity = interval.identity := by
  unfold Interval.close
  split
  · rfl
  · rfl

theorem close_since : (interval.close goesOn at_).since = interval.since := by
  unfold Interval.close
  split
  · rfl
  · rfl

theorem close_of_ended {ended : Time} (isEnded : ended ∈ interval.ended) :
    interval.close goesOn at_ = interval := by
  unfold Interval.close
  apply if_neg
  intro both
  rw [both.1] at isEnded
  cases isEnded

theorem mem_close_ended {ended : Time} (isEnded : ended ∈ (interval.close goesOn at_).ended) :
    ended ∈ interval.ended ∨
      (interval.ended = none ∧ goesOn interval.identity = false ∧ ended = at_) := by
  unfold Interval.close at isEnded
  split at isEnded
  · rename_i both
    exact .inr ⟨both.1, both.2, (Option.some.inj isEnded).symm⟩
  · exact .inl isEnded

theorem close_of_goesOn (isOn : goesOn interval.identity) :
    interval.close goesOn at_ = interval := by
  unfold Interval.close
  apply if_neg
  intro both
  rw [isOn] at both
  cases both.2

theorem goesOn_of_open (isOpen : (interval.close goesOn at_).ended = none) :
    interval.ended = none ∧ goesOn interval.identity := by
  unfold Interval.close at isOpen
  split at isOpen
  · cases isOpen
  · rename_i notBoth
    refine ⟨isOpen, ?_⟩
    cases isOn : goesOn interval.identity with
    | true => rfl
    | false => exact absurd ⟨isOpen, isOn⟩ notBoth

theorem mem_advance : interval ∈ advance intervals goesOn at_ started ↔
    (∃ old ∈ intervals, old.close goesOn at_ = interval) ∨
      ∃ new ∈ started, Interval.begin new = interval := by
  unfold advance
  rw [mem_append, mem_map, mem_map]

theorem Spaced.advance (spaced : Spaced intervals) (after : StartsAfter intervals started)
    (past : ∀ interval ∈ intervals, interval.since ≤ at_) :
    Spaced (advance intervals goesOn at_ started) := by
  constructor
  · intro interval member ended isEnded
    rcases mem_advance.mp member with ⟨old, oldMember, isClosed⟩ | ⟨new, _, isNew⟩
    · rw [← isClosed] at isEnded ⊢
      rw [close_since]
      rcases mem_close_ended isEnded with before | ⟨_, _, isNow⟩
      · exact spaced.ends old oldMember ended before
      · rw [isNow]
        exact past old oldMember
    · rw [← isNew] at isEnded
      cases isEnded
  · unfold Alerts.advance
    rw [pairwise_append]
    refine ⟨?_, ?_, ?_⟩
    · rw [pairwise_map]
      apply spaced.apart.imp
      intro one other apart same
      rw [close_identity, close_identity] at same
      obtain ⟨ended, isEnded, before⟩ := apart same
      rw [close_of_ended isEnded, close_since]
      exact ⟨ended, isEnded, before⟩
    · rw [pairwise_map]
      apply (pairwise_map.mp after.once).imp
      intro one other differ same
      exact absurd same differ
    · intro closed isOld begun isNew
      obtain ⟨old, oldMember, isClosed⟩ := mem_map.mp isOld
      obtain ⟨new, newMember, isBegun⟩ := mem_map.mp isNew
      rw [← isClosed, ← isBegun, close_identity]
      intro same
      obtain ⟨ended, isEnded, before⟩ := after.apart new newMember old oldMember same
      rw [close_of_ended isEnded]
      exact ⟨ended, isEnded, before⟩

theorem journal_prefix (spaced : Spaced intervals)
    (sameInstance : ∀ interval ∈ intervals, interval.identity = identity) (more : List Interval) :
    journal intervals <+: journal (intervals.map (Interval.close goesOn at_) ++ more) := by
  induction intervals with
  | nil => exact nil_prefix
  | cons interval rest ih =>
    cases isEnded : interval.ended with
    | some ended =>
      rw [map_cons, close_of_ended isEnded]
      apply (prefix_append_right_inj interval.rows).mpr
      exact ih spaced.tail (fun other member =>
        sameInstance other (.tail _ member))
    | none =>
      have oneRow : journal [interval] = [.fires interval.identity interval.since] := by
        show Row.fires _ _ :: (interval.ended.toList.map (Row.resolves interval.identity) ++ []) = _
        rw [isEnded]
        rfl
      have closedRows : journal ([interval.close goesOn at_] ++ more) =
          .fires interval.identity interval.since ::
            ((interval.close goesOn at_).ended.toList.map (.resolves interval.identity) ++
              journal more) := by
        show Row.fires _ _ :: (_ ++ _) = _
        rw [close_identity, close_since]
        rfl
      rw [spaced.isLast sameInstance isEnded, oneRow, map_singleton, closedRows]
      exact ⟨_, rfl⟩

theorem rowsOf_journal_advance (spaced : Spaced intervals) (identity : Identity) :
    rowsOf identity (journal intervals) <+:
      rowsOf identity (journal (advance intervals goesOn at_ started)) := by
  have keeps : (fun interval : Interval => decide (interval.identity = identity)) ∘
      Interval.close goesOn at_ = fun interval => decide (interval.identity = identity) := by
    funext interval
    show decide ((interval.close goesOn at_).identity = identity) = _
    rw [close_identity]
  rw [rowsOf_journal, rowsOf_journal, advance, filter_append, filter_map, keeps]
  apply journal_prefix (spaced.filter _)
  intro interval member
  exact of_decide_eq_true (mem_filter.mp member).2

theorem mem_journal_advance {row : Row} :
    row ∈ journal (advance intervals goesOn at_ started) ↔
      row ∈ journal intervals ∨
        (∃ interval ∈ intervals, interval.ended = none ∧ goesOn interval.identity = false ∧
          row = .resolves interval.identity at_) ∨
        ∃ new ∈ started, row = .fires new.1 new.2 := by
  constructor
  · intro member
    obtain ⟨interval, inAll, inRows⟩ := mem_flatMap.mp member
    rcases mem_advance.mp inAll with ⟨old, oldMember, isClosed⟩ | ⟨new, newMember, isNew⟩
    · rw [← isClosed] at inRows
      rcases mem_rows.mp inRows with fires | ⟨ended, isEnded, resolves⟩
      · rw [close_identity, close_since] at fires
        exact .inl (mem_flatMap.mpr ⟨old, oldMember, mem_rows.mpr (.inl fires)⟩)
      · rw [close_identity] at resolves
        rcases mem_close_ended isEnded with before | ⟨wasOpen, stopped, isNow⟩
        · exact .inl (mem_flatMap.mpr ⟨old, oldMember,
            mem_rows.mpr (.inr ⟨ended, before, resolves⟩)⟩)
        · rw [isNow] at resolves
          exact .inr (.inl ⟨old, oldMember, wasOpen, stopped, resolves⟩)
    · rw [← isNew] at inRows
      rcases mem_rows.mp inRows with fires | ⟨ended, isEnded, _⟩
      · exact .inr (.inr ⟨new, newMember, fires⟩)
      · cases isEnded
  · intro either
    rcases either with old | ⟨interval, member, wasOpen, stopped, isRow⟩ | ⟨new, member, isRow⟩
    · obtain ⟨interval, member, inRows⟩ := mem_flatMap.mp old
      apply mem_flatMap.mpr
      refine ⟨interval.close goesOn at_, mem_advance.mpr (.inl ⟨interval, member, rfl⟩), ?_⟩
      rcases mem_rows.mp inRows with fires | ⟨ended, isEnded, resolves⟩
      · apply mem_rows.mpr
        rw [close_identity, close_since]
        exact .inl fires
      · rw [close_of_ended isEnded]
        exact inRows
    · apply mem_flatMap.mpr
      refine ⟨interval.close goesOn at_, mem_advance.mpr (.inl ⟨interval, member, rfl⟩), ?_⟩
      apply mem_rows.mpr
      refine .inr ⟨at_, ?_, ?_⟩
      · unfold Interval.close
        rw [if_pos ⟨wasOpen, stopped⟩]
        rfl
      · rw [close_identity]
        exact isRow
    · apply mem_flatMap.mpr
      refine ⟨.begin new, mem_advance.mpr (.inr ⟨new, member, rfl⟩), ?_⟩
      exact mem_rows.mpr (.inl isRow)

/-! ### Their transitions' keys -/

theorem keys_nodup {rows : List Row}
    (oneInstance : ∀ identity, ((rowsOf identity rows).map Row.key).Nodup) :
    (rows.map Row.key).Nodup := by
  induction rows with
  | nil => exact nodup_nil
  | cons row rest ih =>
    rw [map_cons, nodup_cons]
    constructor
    · intro again
      obtain ⟨other, member, sameKey⟩ := mem_map.mp again
      have sameInstance : other.identity = row.identity := congrArg TransitionKey.identity sameKey
      have ofRow : rowsOf row.identity (row :: rest) = row :: rowsOf row.identity rest :=
        filter_cons_of_pos (decide_eq_true rfl)
      have nodup := oneInstance row.identity
      rw [ofRow, map_cons, nodup_cons] at nodup
      apply nodup.1
      exact mem_map.mpr ⟨other, mem_rowsOf.mpr ⟨member, sameInstance⟩, sameKey⟩
    · apply ih
      intro identity
      exact List.Nodup.sublist (((sublist_cons_self row rest).filter _).map _)
        (oneInstance identity)

theorem rowsOf_journal_keys (spaced : Spaced intervals) (identity : Identity) :
    ((rowsOf identity (journal intervals)).map Row.key).Nodup := by
  rw [rowsOf_journal]
  apply pairwise_map.mpr
  have increasing := journal_increasing (spaced.filter (·.identity = identity))
    (fun interval member => of_decide_eq_true (mem_filter.mp member).2)
  apply increasing.imp_of_mem
  intro one other oneMember otherMember later sameKey
  have same := eq_of_key_eq (isTransition_of_mem_journal oneMember)
    (isTransition_of_mem_journal otherMember) sameKey
  rw [same] at later
  exact absurd later (lt_irrefl _)

end Nmas.Alerts
