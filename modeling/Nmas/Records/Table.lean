import Mathlib.Data.List.Range
import Nmas.Records.Move

/-!
Contract: the table beside the files.

Owns: what each write does to a network's copied rows, to its rows written since
the move and to its file; that the copied rows are always the first lines of the
file, each at its place; and that they are all of them where `check` agrees.
-/

namespace Nmas.Records.Store

open Nmas.Text List
open Function

variable {site : Site} {store next : Store} {network other : Str}

def copiedPairs (store : Store) (network : Str) : List (Line × Option Nat) :=
  (store.copiedRows network).map (fun row => (row.line, row.sourceLine))

def sources (texts : List Line) : List (Line × Option Nat) :=
  (texts.zipIdx 1).map (fun one => (one.1, some one.2))

@[simp]
theorem length_sources (texts : List Line) : (sources texts).length = texts.length := by
  simp [sources]

theorem sources_append (texts more : List Line) :
    sources (texts ++ more) =
      sources texts ++ (more.zipIdx (1 + texts.length)).map (fun one => (one.1, some one.2)) := by
  unfold sources
  rw [zipIdx_append, map_append]

theorem sources_grow {texts more : List Line} (isPrefix : texts <+: more) :
    sources texts <+: sources more := by
  obtain ⟨rest, rfl⟩ := isPrefix
  rw [sources_append]
  exact prefix_append _ _

/-- The files and the table as every step leaves them. -/
structure Consistent (store : Store) : Prop where
  named : ∀ network ∉ store.networks, store.lines network = []
  copied : ∀ network, store.copiedPairs network <+: sources (store.lines network)
  inSeq : store.rows.Pairwise (fun one other => one.seq < other.seq)
  seqTaken : ∀ row ∈ store.rows, row.seq < store.nextSeq

/-! ### The copied rows are the first lines of the file -/

section
variable (consistent : store.Consistent)
include consistent

theorem Consistent.length_le (network : Str) :
    (store.copiedRows network).length ≤ (store.lines network).length := by
  have shorter := (consistent.copied network).length_le
  simpa [copiedPairs] using shorter

theorem Consistent.sourceLines (network : Str) :
    (store.copiedRows network).map Row.sourceLine =
      (List.range' 1 (store.copiedRows network).length).map some := by
  obtain ⟨rest, isAll⟩ := consistent.copied network
  have places : (store.copiedPairs network ++ rest).map Prod.snd =
      (List.range' 1 (store.lines network).length).map some := by
    rw [isAll, sources, map_map, ← zipIdx_map_snd 1 (store.lines network), map_map]
    rfl
  have first := congrArg (List.take (store.copiedRows network).length) places
  rw [map_append, take_append_of_le_length (by simp [copiedPairs]), take_of_length_le
    (by simp [copiedPairs]), ← map_take,
    take_range'_of_length_ge (consistent.length_le network)] at first
  simpa [copiedPairs, Function.comp_def] using first

theorem Consistent.copiedAt_eq_none_iff {place : Nat} (isPlace : 1 ≤ place) :
    store.copiedAt network place = none ↔ (store.copiedRows network).length < place := by
  have isIn : (∃ row ∈ store.copiedRows network, row.sourceLine = some place) ↔
      place < 1 + (store.copiedRows network).length := by
    rw [← mem_map (f := Row.sourceLine), consistent.sourceLines, mem_map]
    simp [isPlace]
  unfold copiedAt
  rw [List.find?_eq_none]
  simp only [decide_eq_true_eq]
  constructor
  · intro absent
    by_contra isShort
    obtain ⟨row, member, isAt⟩ := isIn.mpr (by omega)
    exact absent row member isAt
  · intro isPast row member isAt
    have := isIn.mp ⟨row, member, isAt⟩
    omega

theorem Consistent.missing_eq (texts : List Line) :
    store.missing network texts =
      (texts.drop (store.copiedRows network).length).zipIdx
        (1 + (texts.take (store.copiedRows network).length).length) := by
  unfold missing
  conv_lhs => rw [← take_append_drop (store.copiedRows network).length texts]
  rw [zipIdx_append, filter_append]
  have noneEarly : ((texts.take (store.copiedRows network).length).zipIdx 1).filter
      (fun one => store.copiedAt network one.2 = none) = [] := by
    rw [filter_eq_nil_iff]
    rintro ⟨line, place⟩ member
    have inRange := mem_zipIdx member
    rw [length_take] at inRange
    rw [decide_eq_true_eq, consistent.copiedAt_eq_none_iff inRange.1]
    omega
  rw [noneEarly, nil_append, filter_eq_self]
  rintro ⟨line, place⟩ member
  have isPast := (mem_zipIdx member).1
  have isLong : (store.copiedRows network).length < texts.length := by
    by_contra isShort
    rw [drop_eq_nil_of_le (by omega)] at member
    cases member
  rw [length_take] at isPast
  rw [decide_eq_true_eq, consistent.copiedAt_eq_none_iff (by omega)]
  omega

theorem Consistent.length_eq_of_agrees (agrees : store.agrees site network) :
    (store.copiedRows network).length = (store.lines network).length := by
  apply le_antisymm (consistent.length_le network)
  rcases Nat.eq_zero_or_pos (store.lines network).length with isEmpty | someLine
  · rw [isEmpty]
    exact Nat.zero_le _
  · have isLast : (store.lines network).length ∈ ((store.lines network).zipIdx 1).map Prod.snd := by
      rw [zipIdx_map_snd, mem_range'_1]
      omega
    obtain ⟨one, member, isAt⟩ := mem_map.mp isLast
    unfold Store.agrees at agrees
    simp only [Bool.and_eq_true, all_eq_true] at agrees
    have isCopied := agrees.1.1 one member
    rw [isAt] at isCopied
    by_contra isShort
    rw [(consistent.copiedAt_eq_none_iff someLine).mpr (by omega)] at isCopied
    cases isCopied

theorem Consistent.copiedLines_eq
    (isAll : (store.copiedRows network).length = (store.lines network).length) :
    store.copiedLines network = store.lines network := by
  have pairs : store.copiedPairs network = sources (store.lines network) :=
    (consistent.copied network).eq_of_length (by simpa [copiedPairs] using isAll)
  have inOrder : (store.copiedRows network).Pairwise
      (fun one other => one.sourceLine.getD 0 ≤ other.sourceLine.getD 0) := by
    have places : ((store.copiedRows network).map Row.sourceLine).Pairwise
        (fun one other => one.getD 0 ≤ other.getD 0) := by
      rw [consistent.sourceLines, pairwise_map]
      exact (pairwise_lt_range' (s := 1)).imp (fun isLess => Nat.le_of_lt isLess)
    exact (pairwise_map (f := Row.sourceLine)).mp places
  unfold copiedLines
  rw [List.Pairwise.insertionSort_eq inOrder]
  have lines := congrArg (List.map Prod.fst) pairs
  simpa [copiedPairs, sources, Function.comp_def] using lines

end

/-! ### What each write leaves -/

section
variable {texts : List Line} {line : Line} {sourceLine : Option Nat}

theorem appendTo_eq (written : store.appendTo site network texts = some next) :
    next = { store with
      networks := if network ∈ store.networks then store.networks else store.networks ++ [network]
      lines := update store.lines network (store.lines network ++ texts)
      readOnly := update store.readOnly network false } := by
  unfold appendTo at written
  split at written
  · cases written
  · exact (Option.some.inj written).symm

theorem prefix_lines_of_appendTo (written : store.appendTo site network texts = some next)
    (other : Str) : store.lines other <+: next.lines other := by
  rw [appendTo_eq written]
  by_cases isSame : other = network
  · subst isSame
    simp only [update_self]
    exact prefix_append _ _
  · simp only [update_of_ne isSame]
    exact prefix_refl _

theorem Consistent.appendTo (consistent : store.Consistent)
    (written : store.appendTo site network texts = some next) : next.Consistent where
  named := by
    intro other absent
    rw [appendTo_eq written] at absent ⊢
    have notThis : other ≠ network := by
      rintro rfl
      apply absent
      simp only
      split_ifs with isNamed
      · exact isNamed
      · exact mem_append_right _ (.head _)
    simp only [update_of_ne notThis]
    apply consistent.named
    intro isNamed
    apply absent
    simp only
    split_ifs
    · exact isNamed
    · exact mem_append_left _ isNamed
  copied other := by
    have grown := sources_grow (prefix_lines_of_appendTo written other)
    have sameRows : next.copiedPairs other = store.copiedPairs other := by
      rw [appendTo_eq written]
      rfl
    rw [sameRows]
    exact (consistent.copied other).trans grown
  inSeq := by
    rw [appendTo_eq written]
    exact consistent.inSeq
  seqTaken := by
    rw [appendTo_eq written]
    exact consistent.seqTaken

theorem sinceRows_insert_some (place : Nat) :
    (store.insert line (some place)).sinceRows network = store.sinceRows network := by
  simp [sinceRows, insert, filter_append]

theorem copiedPairs_insert_some (place : Nat) :
    (store.insert line (some place)).copiedPairs network =
      store.copiedPairs network ++ if line.key = network then [(line, some place)] else [] := by
  unfold copiedPairs copiedRows insert
  rw [filter_append, map_append]
  by_cases isKey : line.key = network <;> simp [isKey]

theorem copiedRows_insert_none :
    (store.insert line none).copiedRows network = store.copiedRows network := by
  simp [copiedRows, insert, filter_append]

theorem sinceRows_insert_none :
    (store.insert line none).sinceRows network =
      store.sinceRows network ++
        if line.key = network then [⟨store.nextSeq, line, none⟩] else [] := by
  unfold sinceRows insert
  rw [filter_append]
  by_cases isKey : line.key = network <;> simp [isKey]

theorem inSeq_insert (inSeq : store.rows.Pairwise (fun one other => one.seq < other.seq))
    (seqTaken : ∀ row ∈ store.rows, row.seq < store.nextSeq) :
    (store.insert line sourceLine).rows.Pairwise (fun one other => one.seq < other.seq) := by
  unfold insert
  rw [pairwise_append]
  refine ⟨inSeq, pairwise_singleton _ _, ?_⟩
  intro row isRow added isAdded
  rw [mem_singleton.mp isAdded]
  exact seqTaken row isRow

theorem seqTaken_insert (seqTaken : ∀ row ∈ store.rows, row.seq < store.nextSeq) :
    ∀ row ∈ (store.insert line sourceLine).rows,
      row.seq < (store.insert line sourceLine).nextSeq := by
  intro row member
  rcases mem_append.mp member with old | added
  · exact Nat.lt_succ_of_lt (seqTaken row old)
  · rw [mem_singleton.mp added]
    exact Nat.lt_succ_self _

theorem Consistent.insert_none (consistent : store.Consistent) :
    (store.insert line none).Consistent where
  named := consistent.named
  copied network := by
    unfold copiedPairs
    rw [copiedRows_insert_none]
    exact consistent.copied network
  inSeq := inSeq_insert consistent.inSeq consistent.seqTaken
  seqTaken := seqTaken_insert consistent.seqTaken

/-! ### Copy -/

/-- The rows of one transaction of `copy`. -/
def insertAll (store : Store) (lines : List (Line × Nat)) : Store :=
  lines.foldl (fun state one => state.insert one.1 (some one.2)) store

variable {lines : List (Line × Nat)}

theorem insertAll_eq :
    store.insertAll lines = { store with
      rows := (store.insertAll lines).rows, nextSeq := (store.insertAll lines).nextSeq } := by
  induction lines generalizing store with
  | nil => rfl
  | cons one rest ih =>
    rw [insertAll, foldl_cons]
    exact @ih (store.insert one.1 (some one.2))

theorem sinceRows_insertAll :
    (store.insertAll lines).sinceRows network = store.sinceRows network := by
  induction lines generalizing store with
  | nil => rfl
  | cons one rest ih =>
    rw [insertAll, foldl_cons]
    exact ih.trans (sinceRows_insert_some _)

theorem copiedPairs_insertAll :
    (store.insertAll lines).copiedPairs network =
      store.copiedPairs network ++
        (lines.filter (fun one => one.1.key = network)).map (fun one => (one.1, some one.2)) := by
  induction lines generalizing store with
  | nil => simp [insertAll]
  | cons one rest ih =>
    rw [insertAll, foldl_cons]
    refine ih.trans ?_
    rw [copiedPairs_insert_some, append_assoc]
    by_cases isKey : one.1.key = network <;> simp [isKey]

theorem seqs_insertAll (inSeq : store.rows.Pairwise (fun one other => one.seq < other.seq))
    (seqTaken : ∀ row ∈ store.rows, row.seq < store.nextSeq) :
    (store.insertAll lines).rows.Pairwise (fun one other => one.seq < other.seq) ∧
      ∀ row ∈ (store.insertAll lines).rows, row.seq < (store.insertAll lines).nextSeq := by
  induction lines generalizing store with
  | nil => exact ⟨inSeq, seqTaken⟩
  | cons one rest ih =>
    exact ih (inSeq_insert inSeq seqTaken) (seqTaken_insert seqTaken)

theorem copy_eq (copied : store.copy site network texts = some next) :
    next = store.insertAll (store.missing network texts) := by
  unfold copy at copied
  split at copied
  · cases copied
  · exact (Option.some.inj copied).symm

theorem Consistent.copy (consistent : store.Consistent)
    (own : ∀ line ∈ texts, line.key = network) (isRead : texts <+: store.lines network)
    (copied : store.copy site network texts = some next) : next.Consistent := by
  rw [copy_eq copied]
  obtain ⟨inSeq, seqTaken⟩ := @seqs_insertAll store (store.missing network texts)
    consistent.inSeq consistent.seqTaken
  have sameLines : (store.insertAll (store.missing network texts)).lines = store.lines := by
    rw [insertAll_eq]
  have sameNetworks : (store.insertAll (store.missing network texts)).networks =
      store.networks := by
    rw [insertAll_eq]
  have ownMissing : ∀ one ∈ store.missing network texts, one.1.key = network := by
    intro one member
    have inTexts := fst_mem_of_mem_zipIdx (mem_filter.mp member).1
    exact own _ inTexts
  refine ⟨?_, fun other => ?_, inSeq, seqTaken⟩
  · rw [sameLines, sameNetworks]
    exact consistent.named
  · rw [sameLines, copiedPairs_insertAll]
    by_cases isThis : other = network
    · subst isThis
      rw [filter_eq_self.mpr (fun one member => decide_eq_true (ownMissing one member)),
        consistent.missing_eq]
      rcases Nat.lt_or_ge texts.length (store.copiedRows other).length with isShort | isLong
      · rw [drop_eq_nil_of_le (Nat.le_of_lt isShort)]
        simpa using consistent.copied other
      · have early : store.copiedPairs other =
            sources (texts.take (store.copiedRows other).length) := by
          have isPrefix := prefix_of_prefix_length_le (consistent.copied other)
            (sources_grow isRead) (by simpa [copiedPairs] using isLong)
          have alsoPrefix := sources_grow (List.take_prefix (store.copiedRows other).length texts)
          have sameLength : (store.copiedPairs other).length =
              (sources (texts.take (store.copiedRows other).length)).length := by
            simp [copiedPairs, Nat.min_eq_left isLong]
          exact (prefix_of_prefix_length_le isPrefix alsoPrefix
            (Nat.le_of_eq sameLength)).eq_of_length sameLength
        rw [early, ← sources_append, take_append_drop]
        exact sources_grow isRead
    · rw [filter_eq_nil_iff.mpr (fun one member isKey =>
        isThis ((of_decide_eq_true isKey).symm.trans (ownMissing one member)))]
      simpa using consistent.copied other

/-! ### Delete -/

theorem sinceRows_delete_self :
    (store.delete network (store.sinceRows network)).sinceRows network = [] := by
  unfold sinceRows delete
  rw [filter_filter, filter_eq_nil_iff]
  intro row member isSince
  simp only [Bool.and_eq_true, decide_eq_true_eq, not_and] at isSince
  apply isSince.2 isSince.1.1
  exact mem_map_of_mem (mem_filter.mpr ⟨member, by simpa using isSince.1⟩)

theorem sinceRows_delete_of_ne {got : List Row} (isOther : other ≠ network) :
    (store.delete network got).sinceRows other = store.sinceRows other := by
  unfold sinceRows delete
  rw [filter_filter]
  apply filter_congr
  intro row _
  by_cases isKey : row.line.key = other
  · have notThis : row.line.key ≠ network := by
      rw [isKey]
      exact isOther
    simp [isKey, isOther]
  · simp [isKey]

theorem Consistent.copiedRows_delete (consistent : store.Consistent) (other : Str) :
    (store.delete network (store.sinceRows network)).copiedRows other = store.copiedRows other := by
  unfold copiedRows delete
  rw [filter_filter]
  apply filter_congr
  intro row member
  by_cases isCopied : row.line.key = other ∧ row.sourceLine.isSome
  · have stays : ¬ (row.line.key = network ∧ row.seq ∈ (store.sinceRows network).map Row.seq) := by
      rintro ⟨-, isDeleted⟩
      obtain ⟨since, isSince, sameSeq⟩ := mem_map.mp isDeleted
      obtain ⟨inRows, isNone⟩ := mem_filter.mp isSince
      have apart : (store.rows.map Row.seq).Nodup :=
        pairwise_map.mpr (consistent.inSeq.imp (fun isLess => Nat.ne_of_lt isLess))
      rw [inj_on_of_nodup_map apart inRows member sameSeq] at isNone
      simp only [decide_eq_true_eq] at isNone
      rw [isNone.2] at isCopied
      cases isCopied.2
    rw [decide_eq_true stays, decide_eq_true isCopied]
    rfl
  · rw [decide_eq_false isCopied]
    rfl

theorem Consistent.delete (consistent : store.Consistent) (network : Str) :
    (store.delete network (store.sinceRows network)).Consistent where
  named := consistent.named
  copied other := by
    unfold copiedPairs
    rw [consistent.copiedRows_delete]
    exact consistent.copied other
  inSeq := consistent.inSeq.sublist filter_sublist
  seqTaken row member := consistent.seqTaken row (mem_of_mem_filter member)

end

end Nmas.Records.Store
