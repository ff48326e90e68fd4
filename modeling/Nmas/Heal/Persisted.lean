import Nmas.Heal.Grace

/-!
Contract: when a deviation has persisted.

Owns: what `judge` answers of a device's reads in time order, and the read that
ends its wait.

The scan goes back from the newest read. Since the reads are in time order, the
first read of the newest one's run is the oldest of it, and the reads after the
last change are the last of the list.
-/

namespace Nmas.Heal.Grace

open Nmas.Text List

/-- The read says nothing of the device, or the newest one's departure. -/
def goesOn (newest read : Read) : Bool :=
  match read.state with
  | .error | .busy => true
  | .drifted => same read newest
  | .clean | .skipped => false

/-- The newest read after the last change is drifted, and so is an earlier one,
the grace period before it, with the same departure and no other state between. -/
def Persists (reads : List Read) (changes : List Clock) (graceSeconds : Clock) : Prop :=
  ∃ before older between newest, reads = before ++ older :: (between ++ [newest]) ∧
    (∀ change ∈ changes, change < older.epoch) ∧
      newest.state = .drifted ∧ older.state = .drifted ∧ older.departure = newest.departure ∧
        graceSeconds ≤ newest.epoch - older.epoch ∧
          ∀ read ∈ between, read.state = .error ∨ read.state = .busy ∨
            (read.state = .drifted ∧ read.departure = newest.departure)

variable {reads : List Read} {changes : List Clock} {graceSeconds now : Clock}
  {newest older read : Read} {found entry : Read × Nat} {earlier : List (Read × Nat)}

theorem same_iff (one : older.departure ≠ []) (other : newest.departure ≠ []) :
    same older newest ↔ older.departure = newest.departure := by
  unfold same
  rw [if_pos ⟨one, other⟩, decide_eq_true_eq]

/-- Every drifted read carries a departure. -/
def Fingerprinted (reads : List Read) : Prop :=
  ∀ read ∈ reads, read.state = .drifted → read.departure ≠ []

theorem goesOn_iff (marked : Fingerprinted [read, newest]) (isDrifted : newest.state = .drifted) :
    goesOn newest read ↔ read.state = .error ∨ read.state = .busy ∨
      (read.state = .drifted ∧ read.departure = newest.departure) := by
  have newestMarked := marked newest (by simp) isDrifted
  unfold goesOn
  cases isState : read.state with
  | error | busy | clean | skipped => simp
  | drifted => simpa using same_iff (marked read (by simp) isState) newestMarked

/-! ### The scan back -/

theorem firstOfRun_goesOn : firstOfRun newest found earlier = found ∨
    ∃ between older rest, earlier = between ++ older :: rest ∧
      firstOfRun newest found earlier = older ∧ older.1.state = .drifted ∧
        ∀ other ∈ older :: between, goesOn newest other.1 := by
  induction earlier generalizing found with
  | nil => exact .inl rfl
  | cons entry earlier ih =>
    have further {found : Read × Nat} (goes : goesOn newest entry.1) :
        firstOfRun newest found earlier = found ∨
          ∃ between older rest, entry :: earlier = between ++ older :: rest ∧
            firstOfRun newest found earlier = older ∧ older.1.state = .drifted ∧
              ∀ other ∈ older :: between, goesOn newest other.1 = true := by
      rcases @ih found with isFound | ⟨between, older, rest, isSplit, isLast, spec⟩
      · exact .inl isFound
      · refine .inr ⟨entry :: between, older, rest, ?_, isLast, spec.1, ?_⟩
        · rw [isSplit, cons_append]
        · intro other member
          rcases mem_cons.mp member with isOlder | inBetween
          · exact spec.2 other (mem_cons.mpr (.inl isOlder))
          · rcases mem_cons.mp inBetween with isEntry | later
            · rw [isEntry]
              exact goes
            · exact spec.2 other (.tail _ later)
    unfold firstOfRun
    cases isState : entry.1.state with
    | error | busy => exact further (by simp [goesOn, isState])
    | clean | skipped => exact .inl rfl
    | drifted =>
      by_cases isSame : same entry.1 newest = true
      · have goes : goesOn newest entry.1 := by simp [goesOn, isState, isSame]
        rw [if_pos isSame]
        right
        rcases further goes with isEntry | later
        · refine ⟨[], entry, earlier, rfl, isEntry, isState, ?_⟩
          simpa using goes
        · exact later
      · rw [if_neg isSame]
        exact .inl rfl

theorem firstOfRun_past {between rest : List (Read × Nat)} {entry : Read × Nat}
    (goes : ∀ other ∈ between, goesOn newest other.1)
    (isDrifted : entry.1.state = .drifted) (isSame : same entry.1 newest) :
    firstOfRun newest found (between ++ entry :: rest) ∈ entry :: rest := by
  induction between generalizing found with
  | nil =>
    rw [nil_append, firstOfRun]
    simp only [isDrifted, isSame, if_true]
    exact firstOfRun_mem
  | cons first between ih =>
    have later {found : Read × Nat} := @ih found (fun other member => goes other (.tail _ member))
    have goesFirst := goes first (.head _)
    rw [cons_append, firstOfRun]
    unfold goesOn at goesFirst
    cases isState : first.1.state with
    | error | busy => exact later
    | clean | skipped => simp [isState] at goesFirst
    | drifted =>
      simp only [isState] at goesFirst
      simp only [goesFirst, if_true]
      exact later

/-! ### The reads that count -/

theorem filter_suffix {Entry : Type} {counts : Entry → Bool} {entries : List Entry}
    (onward : entries.Pairwise (fun one other => counts one = true → counts other = true)) :
    entries.filter counts <:+ entries := by
  induction entries with
  | nil => exact suffix_refl _
  | cons first rest ih =>
    obtain ⟨fromFirst, later⟩ := pairwise_cons.mp onward
    by_cases isFirst : counts first = true
    · have all : ∀ entry ∈ first :: rest, counts entry := by
        intro entry member
        rcases mem_cons.mp member with rfl | inRest
        · exact isFirst
        · exact fromFirst entry inRest isFirst
      exact (filter_eq_self.mpr all).symm ▸ suffix_refl (first :: rest)
    · rw [filter_cons_of_neg isFirst]
      exact (ih later).trans (suffix_cons first rest)

def InOrder (reads : List Read) : Prop := reads.Pairwise (fun one other => one.epoch ≤ other.epoch)

def After (changes : List Clock) (read : Read) : Prop := ∀ change ∈ changes, change < read.epoch

theorem counts_iff : changes.max?.all (fun change => decide (change < read.epoch)) = true ↔
    After changes read := by
  cases isNewest : changes.max? with
  | none =>
    rw [List.max?_eq_none_iff.mp isNewest]
    simp [After]
  | some last =>
    obtain ⟨isChange, upper⟩ := List.max?_eq_some_iff.mp isNewest
    simp only [Option.all_some, decide_eq_true_eq]
    constructor
    · intro isLater change member
      exact lt_of_le_of_lt (upper change member) isLater
    · intro after
      exact after last isChange

theorem usable_suffix (inOrder : InOrder reads) : usable reads changes.max? <:+ reads.zipIdx := by
  apply filter_suffix
  have ordered : (reads.zipIdx.map Prod.fst).Pairwise
      (fun one other => one.epoch ≤ other.epoch) := by
    rw [zipIdx_map_fst]
    exact inOrder
  refine (pairwise_map.mp ordered).imp fun isBefore counts => ?_
  rw [counts_iff] at counts ⊢
  intro change member
  exact lt_of_lt_of_le (counts change member) isBefore

theorem reads_split (inOrder : InOrder reads)
    (isUsable : (usable reads changes.max?).reverse = entry :: earlier) :
    ∃ dropped, reads = dropped ++ (earlier.reverse.map Prod.fst ++ [entry.1]) := by
  have isSuffix : usable reads changes.max? <:+ reads.zipIdx := usable_suffix inOrder
  obtain ⟨dropped, isSplit⟩ := isSuffix
  refine ⟨dropped.map Prod.fst, ?_⟩
  have isReads : (reads.zipIdx).map Prod.fst = reads := zipIdx_map_fst 0 reads
  rw [← isSplit, ← (usable reads changes.max?).reverse_reverse, isUsable] at isReads
  rw [← isReads]
  simp

theorem judge_persisted : (judge reads changes graceSeconds now).state = .persisted ↔
    ∃ newest earlier, (usable reads changes.max?).reverse = newest :: earlier ∧
      newest.1.state = .drifted ∧ (firstOfRun newest.1 newest earlier).2 ≠ newest.2 ∧
        graceSeconds ≤ newest.1.epoch - (firstOfRun newest.1 newest earlier).1.epoch := by
  unfold judge
  dsimp only
  cases isUsable : (usable reads changes.max?).reverse with
  | nil => simp
  | cons newest earlier =>
    cases isState : newest.1.state with
    | clean | skipped => simp [isState]
    | error | busy => by_cases errors : readAttempts ≤ errorsInRow (newest :: earlier) <;>
        simp [isState, errors]
    | drifted =>
      by_cases due : (firstOfRun newest.1 newest earlier).2 ≠ newest.2 ∧
          newest.1.epoch - (firstOfRun newest.1 newest earlier).1.epoch ≥ graceSeconds
      · simp only [isState, if_pos due]
        exact iff_of_true trivial ⟨newest, earlier, rfl, isState, due.1, due.2⟩
      · simp only [isState, if_neg due]
        refine iff_of_false (by decide) ?_
        rintro ⟨_, _, isSame, -, apart, long⟩
        cases isSame
        exact due ⟨apart, long⟩

theorem judge_waiting (waits : (judge reads changes graceSeconds now).state = .waiting) :
    ∃ newest earlier, (usable reads changes.max?).reverse = newest :: earlier ∧
      newest.1.state = .drifted ∧
        ((firstOfRun newest.1 newest earlier).2 ≠ newest.2 →
          newest.1.epoch - (firstOfRun newest.1 newest earlier).1.epoch < graceSeconds) ∧
        (judge reads changes graceSeconds now).dueAt =
          some (epochOr (firstOfRun newest.1 newest earlier).1 now + graceSeconds) ∧
        (judge reads changes graceSeconds now).operands.departure = newest.1.departure := by
  unfold judge at waits ⊢
  dsimp only at waits ⊢
  cases isUsable : (usable reads changes.max?).reverse with
  | nil => simp [isUsable] at waits
  | cons newest earlier =>
    simp only [isUsable] at waits
    cases isState : newest.1.state with
    | clean | skipped => simp [isState] at waits
    | error | busy => by_cases errors : readAttempts ≤ errorsInRow (newest :: earlier) <;>
        simp [isState, errors] at waits
    | drifted =>
      by_cases due : (firstOfRun newest.1 newest earlier).2 ≠ newest.2 ∧
          newest.1.epoch - (firstOfRun newest.1 newest earlier).1.epoch ≥ graceSeconds
      · simp [isState, due] at waits
      · refine ⟨newest, earlier, rfl, isState, ?_, ?_, ?_⟩
        · intro apart
          exact not_le.mp fun long => due ⟨apart, long⟩
        · simp only [isState, if_neg due]
        · simp only [isState, if_neg due]

/-! ### Judged persisted -/

theorem run_split (inOrder : InOrder reads) (marked : Fingerprinted reads)
    (isUsable : (usable reads changes.max?).reverse = entry :: earlier)
    (isDrifted : entry.1.state = .drifted) :
    ∃ before between older, older = firstOfRun entry.1 entry earlier ∧ After changes older.1 ∧
      older.1.state = .drifted ∧ older.1.departure = entry.1.departure ∧
        (older = entry ∧ reads = before ++ [entry.1] ∨
          reads = before ++ older.1 :: (between ++ [entry.1]) ∧
            ∀ read ∈ between, read.state = .error ∨ read.state = .busy ∨
              (read.state = .drifted ∧ read.departure = entry.1.departure)) := by
  obtain ⟨dropped, isReads⟩ := reads_split inOrder isUsable
  have counted : ∀ other ∈ entry :: earlier, other ∈ usable reads changes.max? := by
    intro other member
    rw [← isUsable] at member
    exact mem_reverse.mp member
  have isRead : ∀ other ∈ entry :: earlier, other.1 ∈ reads := by
    intro other member
    exact mem_of_getElem? (mem_usable (counted other member)).1
  rcases (firstOfRun_goesOn : firstOfRun entry.1 entry earlier = entry ∨ _) with
    isNewest | ⟨between, older, rest, isEarlier, isOlder, olderDrifted, goes⟩
  · refine ⟨dropped ++ earlier.reverse.map Prod.fst, [], entry, isNewest.symm, ?_, isDrifted, rfl,
      .inl ⟨rfl, ?_⟩⟩
    · exact (mem_usable (counted entry (.head _))).2
    · rw [isReads, append_assoc]
  · have inEarlier : ∀ other ∈ older :: between, other ∈ earlier := by
      intro other member
      rw [isEarlier]
      rcases mem_cons.mp member with isOlder | inBetween
      · exact mem_append.mpr (.inr (mem_cons.mpr (.inl isOlder)))
      · exact mem_append.mpr (.inl inBetween)
    have holds : ∀ other ∈ older :: between, other.1.state = .error ∨ other.1.state = .busy ∨
        (other.1.state = .drifted ∧ other.1.departure = entry.1.departure) := by
      intro other member
      refine (goesOn_iff ?_ isDrifted).mp (goes other member)
      intro read isOne
      rcases mem_pair.mp isOne with rfl | rfl
      · exact marked _ (isRead other (.tail _ (inEarlier other member)))
      · exact marked _ (isRead entry (.head _))
    refine ⟨dropped ++ rest.reverse.map Prod.fst, between.reverse.map Prod.fst, older,
      isOlder.symm, ?_, olderDrifted, ?_, .inr ⟨?_, ?_⟩⟩
    · exact (mem_usable (counted older (mem_cons_of_mem _ (inEarlier older (.head _))))).2
    · rcases holds older (.head _) with isError | isBusy | same
      · rw [olderDrifted] at isError
        cases isError
      · rw [olderDrifted] at isBusy
        cases isBusy
      · exact same.2
    · rw [isReads, isEarlier]
      simp
    · intro read member
      obtain ⟨other, inBetween, rfl⟩ := mem_map.mp member
      exact holds other (.tail _ (mem_reverse.mp inBetween))

theorem persists_of_judge (inOrder : InOrder reads) (marked : Fingerprinted reads)
    (judged : (judge reads changes graceSeconds now).state = .persisted) :
    Persists reads changes graceSeconds := by
  obtain ⟨newest, earlier, isUsable, isDrifted, apart, long⟩ := judge_persisted.mp judged
  obtain ⟨before, between, older, isOlder, after, olderDrifted, isSame, place⟩ :=
    run_split inOrder marked isUsable isDrifted
  rw [← isOlder] at apart long
  rcases place with ⟨isNewest, -⟩ | ⟨isReads, holds⟩
  · rw [isNewest] at apart
    exact absurd rfl apart
  · exact ⟨before, older.1, between, newest.1, isReads, after, isDrifted, olderDrifted, isSame,
      long, holds⟩

theorem judge_of_persists (inOrder : InOrder reads) (marked : Fingerprinted reads)
    (persists : Persists reads changes graceSeconds) :
    (judge reads changes graceSeconds now).state = .persisted := by
  obtain ⟨before, older, between, newest, isReads, after, isDrifted, olderDrifted, isSame, long,
    holds⟩ := persists
  rw [isReads] at inOrder marked ⊢
  obtain ⟨-, fromOlder, beforeOlder⟩ := pairwise_append.mp inOrder
  have laterOlder := (pairwise_cons.mp fromOlder).1
  have counts : ∀ read ∈ older :: (between ++ [newest]),
      changes.max?.all (fun change => decide (change < read.epoch)) = true := by
    intro read member
    rw [counts_iff]
    intro change isChange
    rcases mem_cons.mp member with rfl | later
    · exact after change isChange
    · exact lt_of_lt_of_le (after change isChange) (laterOlder read later)
  -- the reads that count, newest first: the newest, those between, the older, some before it
  obtain ⟨rest, isUsable, restBefore⟩ : ∃ rest : List (Read × Nat),
      (usable (before ++ older :: (between ++ [newest])) changes.max?).reverse =
        (newest, before.length + 1 + between.length) ::
          ((between.zipIdx (before.length + 1)).reverse ++ (older, before.length) :: rest) ∧
      ∀ entry ∈ rest, entry.1 ∈ before ∧ entry.2 < before.length := by
    refine ⟨(before.zipIdx.filter
      (fun entry => changes.max?.all (fun change => change < entry.1.epoch))).reverse, ?_, ?_⟩
    · have kept : ∀ (reads : List Read) (start : Nat),
          (∀ read ∈ reads, changes.max?.all (fun change => decide (change < read.epoch)) = true) →
            (reads.zipIdx start).filter
              (fun entry => changes.max?.all (fun change => change < entry.1.epoch)) =
                reads.zipIdx start := by
        intro reads start all
        refine filter_eq_self.mpr fun entry member => ?_
        exact all entry.1 (fst_mem_of_mem_zipIdx member)
      unfold usable
      rw [zipIdx_append, filter_append, kept _ _ counts]
      simp [zipIdx_append, zipIdx_cons]
    · intro entry member
      have inBefore := (mem_filter.mp (mem_reverse.mp member)).1
      refine ⟨fst_mem_of_mem_zipIdx inBefore, ?_⟩
      simpa using snd_lt_of_mem_zipIdx inBefore
  have newestMarked := marked newest (by simp) isDrifted
  have goes : ∀ entry ∈ (between.zipIdx (before.length + 1)).reverse,
      goesOn newest entry.1 = true := by
    intro entry member
    have inBetween := fst_mem_of_mem_zipIdx (mem_reverse.mp member)
    refine (goesOn_iff ?_ isDrifted).mpr (holds entry.1 inBetween)
    intro read isOne
    rcases mem_pair.mp isOne with rfl | rfl
    · exact marked _ (by simp [inBetween])
    · exact marked _ (by simp)
  have atLeast := @firstOfRun_past _ (newest, before.length + 1 + between.length) _ rest
    (older, before.length) goes olderDrifted
    ((same_iff (marked older (by simp) olderDrifted) newestMarked).mpr isSame)
  refine judge_persisted.mpr ⟨_, _, isUsable, isDrifted, ?_, ?_⟩
  · rcases mem_cons.mp atLeast with isOlder | inRest
    · rw [isOlder]
      dsimp only
      omega
    · have earlier := (restBefore _ inRest).2
      dsimp only at earlier ⊢
      omega
  · refine le_trans long (sub_le_sub_left ?_ _)
    rcases mem_cons.mp atLeast with isOlder | inRest
    · rw [isOlder]
    · exact beforeOlder _ (restBefore _ inRest).1 older (.head _)

/-! ### The wait ends -/

theorem epoch_le_epochOr (known : read.epoch = 0 → 0 ≤ now) : read.epoch ≤ epochOr read now := by
  unfold epochOr
  split
  · rename_i isZero
    rw [isZero]
    exact known isZero
  · exact le_refl _

theorem persists_of_waiting {due : Clock} (inOrder : InOrder reads) (marked : Fingerprinted reads)
    (known : ∀ read ∈ reads, read.epoch = 0 → 0 ≤ now)
    (waits : (judge reads changes graceSeconds now).state = .waiting)
    (isDue : (judge reads changes graceSeconds now).dueAt = some due) (later : due ≤ read.epoch)
    (isDrifted : read.state = .drifted)
    (isDeparture : read.departure = (judge reads changes graceSeconds now).operands.departure) :
    Persists (reads ++ [read]) changes graceSeconds := by
  obtain ⟨newest, earlier, isUsable, newestDrifted, -, dueAt, departure⟩ := judge_waiting waits
  obtain ⟨before, between, older, isOlder, after, olderDrifted, isSame, place⟩ :=
    run_split inOrder marked isUsable newestDrifted
  rw [departure] at isDeparture
  rw [dueAt, ← isOlder] at isDue
  have isRead : older.1 ∈ reads := by
    rcases place with ⟨isNewest, isReads⟩ | ⟨isReads, -⟩
    · rw [isReads, isNewest]
      simp
    · rw [isReads]
      simp
  have long : graceSeconds ≤ read.epoch - older.1.epoch := by
    rw [le_sub_iff_add_le, add_comm]
    calc older.1.epoch + graceSeconds
        ≤ epochOr older.1 now + graceSeconds :=
          add_le_add_left (epoch_le_epochOr (known older.1 isRead)) _
      _ = due := Option.some.inj isDue
      _ ≤ read.epoch := later
  rcases place with ⟨isNewest, isReads⟩ | ⟨isReads, holds⟩
  · refine ⟨before, older.1, [], read, ?_, after, isDrifted, olderDrifted, ?_, long, ?_⟩
    · rw [isReads, isNewest, append_assoc]
      rfl
    · rw [isSame, isDeparture]
    · intro other member
      cases member
  · refine ⟨before, older.1, between ++ [newest.1], read, ?_, after, isDrifted, olderDrifted, ?_,
      long, ?_⟩
    · rw [isReads]
      simp
    · rw [isSame, isDeparture]
    · intro other member
      rw [isDeparture]
      rcases mem_append.mp member with inBetween | isNewest
      · exact holds other inBetween
      · rw [mem_singleton.mp isNewest]
        exact .inr (.inr ⟨newestDrifted, rfl⟩)

theorem inOrder_of_waiting {due : Clock} (inOrder : InOrder reads)
    (known : ∀ read ∈ reads, read.epoch = 0 → 0 ≤ now) (notNegative : 0 ≤ graceSeconds)
    (waits : (judge reads changes graceSeconds now).state = .waiting)
    (isDue : (judge reads changes graceSeconds now).dueAt = some due) (later : due ≤ read.epoch) :
    InOrder (reads ++ [read]) := by
  obtain ⟨newest, earlier, isUsable, -, short, dueAt, -⟩ := judge_waiting waits
  obtain ⟨dropped, isReads⟩ := reads_split inOrder isUsable
  have counted : ∀ entry ∈ newest :: earlier, reads[entry.2]? = some entry.1 := by
    intro entry member
    rw [← isUsable] at member
    exact (mem_usable (mem_reverse.mp member)).1
  have isNewest := counted newest (.head _)
  have isOldest := counted _
    (firstOfRun_mem : firstOfRun newest.1 newest earlier ∈ newest :: earlier)
  generalize firstOfRun newest.1 newest earlier = first at isOldest short dueAt
  have waited : epochOr first.1 now + graceSeconds ≤ read.epoch := by
    rw [dueAt] at isDue
    rw [Option.some.inj isDue]
    exact later
  have since := epoch_le_epochOr (known _ (mem_of_getElem? isOldest))
  have newestBefore : newest.1.epoch ≤ read.epoch := by
    refine le_trans ?_ waited
    by_cases isSame : first.2 = newest.2
    · rw [isSame, isNewest] at isOldest
      rw [← Option.some.inj isOldest] at since ⊢
      exact le_add_of_le_of_nonneg since notNegative
    · have within := sub_lt_iff_lt_add'.mp (short isSame)
      exact le_trans within.le (add_le_add_left since _)
  refine pairwise_append.mpr ⟨inOrder, pairwise_singleton _ _, ?_⟩
  intro other member last isRead
  rw [mem_singleton.mp isRead]
  rw [isReads] at inOrder member
  rw [← append_assoc] at inOrder member
  rcases mem_append.mp member with before | isLast
  · exact le_trans ((pairwise_append.mp inOrder).2.2 other before newest.1
      (mem_singleton.mpr rfl)) newestBefore
  · rw [mem_singleton.mp isLast]
    exact newestBefore

/-- **The grace judgement is exact.** Of reads in time order a departure has
persisted exactly where it stands in two reads the grace period apart, with
nothing else between them and no change after the first; and where it waits, a
read that still finds it when the wait is due settles it. -/
theorem judge_exact (inOrder : InOrder reads) (marked : Fingerprinted reads)
    (known : ∀ read ∈ reads, read.epoch = 0 → 0 ≤ now) :
    ((judge reads changes graceSeconds now).state = .persisted ↔
      Persists reads changes graceSeconds) ∧
    ((judge reads changes graceSeconds now).state = .waiting →
      ∀ due, (judge reads changes graceSeconds now).dueAt = some due → ∀ read,
        read.state = .drifted → read.departure ≠ [] →
          read.departure = (judge reads changes graceSeconds now).operands.departure →
            due ≤ read.epoch → (graceSeconds < 0 → InOrder (reads ++ [read])) →
              ∀ later, (judge (reads ++ [read]) changes graceSeconds later).state = .persisted) := by
  refine ⟨⟨persists_of_judge inOrder marked, judge_of_persists inOrder marked⟩, ?_⟩
  intro waits due isDue read isDrifted isMarked isDeparture isLater negative later
  have persists := persists_of_waiting inOrder marked known waits isDue isLater isDrifted isDeparture
  refine judge_of_persists ?_ ?_ persists
  · by_cases isNegative : graceSeconds < 0
    · exact negative isNegative
    · exact inOrder_of_waiting inOrder known (not_lt.mp isNegative) waits isDue isLater
  · intro other member
    rcases List.mem_append.mp member with inReads | isRead
    · exact marked other inReads
    · rw [List.mem_singleton.mp isRead]
      exact fun _ => isMarked

/-- One departed read after a change waits; a second one when it is due settles it. -/
theorem judge_exact_alone :
    let first : Read := ⟨100, .drifted, "9f2c".ascii, none, []⟩
    ((judge [first] [50] 600 150).state = .persisted ↔ Persists [first] [50] 600) ∧
      ∀ later, (judge [first, ⟨700, .drifted, "9f2c".ascii, none, []⟩] [50] 600 later).state =
        .persisted := by
  intro first
  have judged := @judge_exact [first] [50] 600 150 (List.pairwise_singleton _ _)
    (by unfold Fingerprinted; decide) (by decide)
  refine ⟨judged.1, fun later => ?_⟩
  exact judged.2 (by decide) 700 (by decide +kernel) _ rfl (by decide)
    (by decide) (by decide) (fun negative => absurd negative (by decide))
    later

end Nmas.Heal.Grace
