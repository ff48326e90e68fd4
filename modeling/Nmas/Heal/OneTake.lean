import Nmas.Heal.Locks

/-!
Contract: every step of every process keeps what a job has locked and read.

Owns: the steps of an act, a withdrawal, a find and a reap, a process's end, and
every run of them.
-/

namespace Nmas.Heal.Act

open Nmas.Text List
open Nmas.Os (Flock)
open Nmas.Log.Machine (run run_keeps)

variable {state next : State} {job other process : Nat} {task : Task} {acting : Acting}
  {rows : List Row} {decision : Str} {turn : Turn} {drawn : Str}

structure Moves (job : Nat) (state next : State) : Prop where
  near : Near job state next
  own : ∀ process task, next.jobs job = some ⟨process, task⟩ → JobKeeps next job task

theorem Moves.goes (near : Near job state next)
    (keeps : JobKeeps (next.setTask job process task) job task) :
    Moves job state (next.setTask job process task) where
  near := near.setTask
  own other same isJob := by
    rw [State.setTask_job] at isJob
    cases isJob
    exact keeps

theorem Moves.stops (near : Near job state next) : Moves job state (next.ends job) where
  near := near.ends
  own other same isJob := by
    rw [State.ends_job] at isJob
    cases isJob

theorem Moves.stays (keeps : Keeps state) : Moves job state state := ⟨near_refl, keeps.jobs job⟩

theorem Moves.on {stage : Stage} (near : Near job state next) (keeps : ActKeeps state job acting)
    (sameLock : next.lock = state.lock)
    (locked : stage.locked → acting.stage.locked)
    (read : StageKeeps (next.setTask job process (.act { acting with stage := stage })) job
      { acting with stage := stage }) :
    Moves job state (next.setTask job process (.act { acting with stage := stage })) := by
  refine Moves.goes near ⟨fun isLocked => ?_, fun took => near.taken (keeps.took took), read⟩
  have held := keeps.own (locked isLocked)
  rw [← sameLock] at held
  exact held

theorem took_raised {caller : Caller} {acting : Acting}
    (isRaised : acting.stage = caller.raised) : StageKeeps state job acting := by
  unfold StageKeeps
  rw [isRaised]
  cases caller <;> trivial

theorem took_unwritten {caller : Caller} {acting : Acting}
    (isUnwritten : acting.stage = caller.unwritten) : StageKeeps state job acting := by
  unfold StageKeeps
  rw [isUnwritten]
  cases caller <;> trivial

theorem locked_own (locked : state.takeLock = some job) :
    ∀ other, other ≠ job → state.takeLock ≠ some other := by
  intro other isOther isLocked
  rw [locked, Option.some_inj] at isLocked
  exact isOther isLocked.symm

theorem actStep_moves (keeps : Keeps state) (isJob : state.jobs job = some ⟨process, .act acting⟩) :
    Moves job state (actStep state job process acting turn drawn) := by
  have kept : ActKeeps state job acting := keeps.jobs job process _ isJob
  have read := kept.stage
  obtain ⟨caller, decision, by_, now, inode, took, incident, stage⟩ := acting
  cases stage with
  | opening =>
    simp only [actStep]
    split
    · exact Moves.stops near_refl
    · refine Moves.goes near_openMark ⟨?_, ?_, read⟩
      · intro locked
        cases locked
      · intro isTook
        cases read.symm.trans isTook
  | locking =>
    simp only [actStep]
    split
    · exact Moves.stops near_refl
    · split
      · rename_i lock isLocked
        obtain ⟨isFree, isOwn⟩ := Flock.lockExclusive_some isLocked
        refine Moves.goes ?_ ⟨?_, ?_, read⟩
        · refine near_refl.setLock fun other _ held => ?_
          cases isFree.symm.trans held
        · intro _
          have isLock : (state.setLock inode lock).lock inode = lock := Function.update_self ..
          exact (congrArg Flock.exclusive isLock).trans isOwn
        · intro isTook
          cases read.symm.trans isTook
      · exact Moves.stops near_refl
  | clearing | marking =>
    simp only [actStep]
    split
    · exact Moves.on near_refl kept rfl (fun _ => rfl) trivial
    · exact Moves.on near_refl.setRecord kept rfl (fun _ => rfl) read
  | waiting =>
    simp only [actStep]
    split
    · exact Moves.on near_refl kept rfl (fun _ => rfl) (took_raised rfl)
    · split
      · rename_i isFree
        refine Moves.on (near_refl.setTake fun other _ held => ?_) kept rfl (fun _ => rfl)
          ⟨read, rfl⟩
        cases isFree.symm.trans held
      · exact Moves.stays keeps
  | reading =>
    obtain ⟨notTook, locked⟩ := read
    have given : Near job state { state with takeLock := none } :=
      near_refl.setTake (locked_own locked)
    simp only [actStep]
    split
    · exact Moves.on given kept rfl (fun _ => rfl) (took_raised rfl)
    · split
      · rename_i row isTaken
        obtain ⟨isRow, notTaken⟩ := take_first isTaken
        refine Moves.on near_refl kept rfl (fun _ => rfl) ⟨notTook, locked, ⟨_, isRow⟩, ?_⟩
        exact Bool.eq_false_iff.mp notTaken
      · exact Moves.on given kept rfl (fun _ => rfl) trivial
  | taking row =>
    obtain ⟨-, locked, ⟨taken, isRow⟩, notTaken⟩ := read
    simp only [actStep]
    split
    · exact Moves.on (near_refl.setTake (locked_own locked)) kept rfl (fun _ => rfl)
        (took_raised rfl)
    · have appended : Near job state (state.append row) := by
        refine near_append fun other isTake => ⟨locked, ?_⟩
        have isDecision : decision = other := by
          rw [isRow] at isTake
          simpa [Row.takes] using isTake
        rw [← isDecision]
        exact notTaken
      refine Moves.goes (appended.setTake (locked_own locked)) ⟨?_, ?_, rfl⟩
      · intro _
        exact kept.own rfl
      · intro _
        refine any_eq_true.mpr ⟨row, ?_, ?_⟩
        · exact mem_append_right _ (.head _)
        · rw [isRow]
          simp [Row.takes]
  | returning =>
    simp only [actStep]
    split
    · exact Moves.on near_refl kept rfl (fun _ => rfl) (took_raised rfl)
    · split
      · exact Moves.on near_refl kept rfl (fun _ => rfl) trivial
      · refine Moves.goes near_refl ⟨?_, ?_, ?_⟩
        · intro _
          exact kept.own rfl
        · exact kept.took
        · cases caller <;> exact read
  | starting =>
    simp only [actStep]
    split
    · exact Moves.on near_refl kept rfl (fun _ => rfl) read
    · exact Moves.on near_refl kept rfl (fun _ => rfl) read
  | working =>
    simp only [actStep]
    split
    · exact Moves.stays keeps
    · exact Moves.on near_refl kept rfl (fun _ => rfl) read
    · refine ⟨near_refl.starts, fun other task isTask => ?_⟩
      cases isJob.symm.trans isTask
      exact ⟨kept.own, kept.took, read⟩
    · split
      · exact Moves.on near_refl kept rfl (fun _ => rfl) read
      · exact Moves.stays keeps
    · exact Moves.on near_refl kept rfl (fun _ => rfl) trivial
  | applying outcome source =>
    have appended : Near job state (state.append (.applied decision ⟨outcome, by_, iso now⟩)) :=
      near_append fun other isTake => by cases isTake
    simp only [actStep]
    split
    · split
      · exact Moves.on near_refl kept rfl (fun _ => rfl) read
      · exact Moves.on near_refl kept rfl (fun _ => rfl) (took_unwritten rfl)
      · exact Moves.on near_refl kept rfl (fun _ => rfl) trivial
    · split
      · exact Moves.on appended kept rfl (fun _ => rfl) read
      · exact Moves.on appended kept rfl (fun _ => rfl) read
  | halting =>
    have appended : Near job state (state.append (haltOf drawn decision now)) :=
      near_append fun other isTake => by cases isTake
    simp only [actStep]
    split
    · exact Moves.on near_refl kept rfl (fun _ => rfl) read
    · exact Moves.on appended kept rfl (fun _ => rfl) read
  | closing outcome source =>
    simp only [actStep]
    split
    · split
      · exact Moves.on near_refl kept rfl (fun _ => rfl) (took_unwritten rfl)
      · exact Moves.on near_refl kept rfl (fun _ => rfl) trivial
    · exact Moves.on near_refl.closes kept rfl (fun _ => rfl) trivial
  | emptying =>
    simp only [actStep]
    split
    · exact Moves.stops near_refl.unlock
    · exact Moves.on near_refl.setRecord kept rfl (fun _ => rfl) trivial
  | unlocking =>
    simp only [actStep]
    split
    · exact Moves.stops near_refl.unlock
    · refine Moves.goes near_refl.unlock ⟨?_, kept.took, trivial⟩
      intro locked
      cases locked
  | unlinking =>
    simp only [actStep]
    split
    · exact Moves.stops near_refl
    · exact Moves.stops near_refl.unlink
  | kept => exact Moves.stays keeps

theorem withdrawStep_moves {withdrawing : Withdrawing} (keeps : Keeps state)
    (isJob : state.jobs job = some ⟨process, .withdraw withdrawing⟩) :
    Moves job state (withdrawStep state job process withdrawing turn) := by
  have read : WithdrawKeeps state job withdrawing := keeps.jobs job process _ isJob
  obtain ⟨decision, how, by_, now, stage⟩ := withdrawing
  cases stage with
  | waiting =>
    simp only [withdrawStep]
    split
    · exact Moves.stops near_refl
    · split
      · rename_i isFree
        refine Moves.goes (near_refl.setTake fun other _ held => ?_) rfl
        cases isFree.symm.trans held
      · exact Moves.stays keeps
  | reading =>
    have given : Near job state { state with takeLock := none } :=
      near_refl.setTake (locked_own read)
    simp only [withdrawStep]
    split
    · exact Moves.stops given
    · split
      · rename_i row isWithdrawn
        obtain ⟨isRow, notTaken⟩ := withdraw_first isWithdrawn
        exact Moves.goes near_refl ⟨read, ⟨_, isRow⟩, Bool.eq_false_iff.mp notTaken⟩
      · exact Moves.stops given
  | withdrawing row =>
    obtain ⟨locked, ⟨withdrawn, isRow⟩, notTaken⟩ := read
    simp only [withdrawStep]
    split
    · exact Moves.stops (near_refl.setTake (locked_own locked))
    · have appended : Near job state (state.append row) := by
        refine near_append fun other isTake => ⟨locked, ?_⟩
        have isDecision : decision = other := by
          rw [isRow] at isTake
          simpa [Row.takes] using isTake
        rw [← isDecision]
        exact notTaken
      exact Moves.stops (appended.setTake (locked_own locked))

/-! ### A find, by itself and in a reap -/

theorem openTakes_keep (rows : List Row) : IdsKeep rows (openTakes rows) := by
  refine ⟨?_, ?_⟩
  · exact (filter_sublist.map _).nodup (decisions_distinct rows)
  · intro decision member
    obtain ⟨record, isRecord, rfl⟩ := mem_map.mp member
    obtain ⟨isDecided, isOpen⟩ := mem_filter.mp isRecord
    have isTaken : record.taken.isSome := (of_decide_eq_true isOpen).2.1
    rw [(decisions_taken isDecided).1] at isTaken
    exact isTaken

theorem findStep_state (state : State) (job : Nat) (finding : Finding) (turn : Turn) :
    ∃ lock, (findStep state job finding turn).1 = { state with lock := lock } ∧
      ∀ inode other, other ≠ job → (state.lock inode).exclusive = some other →
        (lock inode).exclusive = some other := by
  have near_lock {inode : Nat} {lock : Flock Nat}
      (stays : ∀ other, other ≠ job → (state.lock inode).exclusive = some other →
        lock.exclusive = some other) :=
    ((@near_refl state job).setLock stays).lock
  have same : ∃ lock, state = { state with lock := lock } ∧
      ∀ inode other, other ≠ job → (state.lock inode).exclusive = some other →
        (lock inode).exclusive = some other := ⟨state.lock, rfl, fun _ _ _ held => held⟩
  cases finding with
  | listing | relisting ended =>
    simp only [findStep]
    split
    · exact same
    · exact same
  | opening rest ended =>
    cases rest with
    | nil => exact same
    | cons decision rest =>
      simp only [findStep]
      split
      · exact same
      · split
        · exact same
        · exact same
  | probing decision inode rest ended =>
    simp only [findStep]
    split
    · exact same
    · split
      · rename_i lock isShared
        refine ⟨_, rfl, near_lock fun other _ held => ?_⟩
        rw [Flock.lockShared_exclusive isShared]
        exact held
      · exact same
  | looking decision inode rest ended =>
    have unlocks := @near_lock inode ((state.lock inode).unlock job)
      fun other isOther held => Flock.unlock_exclusive held isOther
    simp only [findStep]
    split
    · exact ⟨_, rfl, unlocks⟩
    · exact ⟨_, rfl, unlocks⟩
  | answered found | unreadable => exact same

theorem findStep_near (state : State) (job : Nat) (finding : Finding) (turn : Turn) :
    Near job state (findStep state job finding turn).1 := by
  obtain ⟨lock, isNext, stays⟩ := findStep_state state job finding turn
  rw [isNext]
  exact { near_refl with lock := stays }

theorem findStep_ids {finding : Finding} (keep : IdsKeep state.rows finding.ids) :
    IdsKeep state.rows (findStep state job finding turn).2.ids := by
  cases finding with
  | listing =>
    simp only [findStep]
    split
    · exact idsKeep_nil
    · exact openTakes_keep state.rows
  | opening rest ended =>
    cases rest with
    | nil =>
      simp only [findStep]
      split
      · exact idsKeep_nil
      · exact keep.sub (sublist_append_left _ _)
    | cons decision rest =>
      simp only [findStep]
      split
      · exact idsKeep_nil
      · split
        · simpa [Finding.ids] using keep
        · exact keep
  | probing decision inode rest ended =>
    simp only [findStep]
    split
    · exact idsKeep_nil
    · split
      · exact keep
      · exact keep.sub (List.Sublist.append_left (sublist_cons_self decision rest) _)
  | looking decision inode rest ended =>
    simp only [findStep]
    split
    · exact idsKeep_nil
    · simpa [Finding.ids] using keep
  | relisting ended =>
    simp only [findStep]
    split
    · exact idsKeep_nil
    · exact keep.sub (filter_sublist.map _)
  | answered found | unreadable => exact keep

theorem Moves.reaps {reaping : Reaping} {stage : ReapStage} (near : Near job state next)
    (keeps : ReapKeeps state job reaping) (sameLock : next.reapLock = state.reapLock)
    (locked : stage.locked → reaping.stage.locked) (ids : IdsKeep next.rows stage.ids) :
    Moves job state (next.setTask job process (.reap { reaping with stage := stage })) := by
  refine Moves.goes near ⟨fun isLocked => ?_, ids⟩
  exact sameLock.trans (keeps.locked (locked isLocked))

theorem reapLocked_own (locked : state.reapLock = some job) :
    ∀ other, other ≠ job → state.reapLock ≠ some other := by
  intro other isOther isLocked
  rw [locked, Option.some_inj] at isLocked
  exact isOther isLocked.symm

theorem reapFind_moves {reaping : Reaping} {finding : Finding} {stage : Finding → ReapStage}
    (keeps : ReapKeeps state job reaping) (ids : ∀ finding, (stage finding).ids = finding.ids)
    (locked : ∀ one other, (stage one).locked = (stage other).locked)
    (isStage : reaping.stage = stage finding) :
    Moves job state
      ((findStep state job finding turn).1.setTask job process
        (.reap { reaping with stage := stage (findStep state job finding turn).2 })) := by
  have keep : IdsKeep state.rows finding.ids := by
    rw [← ids finding, ← isStage]
    exact keeps.ids
  obtain ⟨lock, isNext, -⟩ := findStep_state state job finding turn
  refine Moves.reaps (findStep_near state job finding turn) keeps ?_ ?_ ?_
  · rw [isNext]
  · rw [isStage, locked _ finding]
    exact id
  · rw [isNext, ids]
    exact findStep_ids keep

theorem reapStep_moves {reaping : Reaping} (keeps : Keeps state)
    (isJob : state.jobs job = some ⟨process, .reap reaping⟩) :
    Moves job state (reapStep state job process reaping turn drawn) := by
  have kept : ReapKeeps state job reaping := keeps.jobs job process _ isJob
  have ids := kept.ids
  obtain ⟨by_, now, stage⟩ := reaping
  cases stage with
  | finding find =>
    cases find with
    | answered found =>
      simp only [reapStep]
      split
      · exact Moves.stops near_refl
      · exact Moves.reaps near_refl kept rfl (fun locked => locked) idsKeep_nil
    | unreadable => exact Moves.stops near_refl
    | _ => exact reapFind_moves kept (fun _ => rfl) (fun _ _ => rfl) rfl
  | waiting =>
    simp only [reapStep]
    split
    · exact Moves.stops near_refl
    · split
      · rename_i isFree
        refine Moves.goes (near_refl.setReap fun other _ held => ?_) ⟨fun _ => rfl, idsKeep_nil⟩
        cases isFree.symm.trans held
      · exact Moves.stays keeps
  | checking find =>
    cases find with
    | answered found => exact Moves.reaps near_refl kept rfl (fun locked => locked) ids
    | unreadable => exact Moves.stops (near_refl.setReap (reapLocked_own (kept.locked rfl)))
    | _ => exact reapFind_moves kept (fun _ => rfl) (fun _ _ => rfl) rfl
  | recording found =>
    cases found with
    | nil => exact Moves.stops (near_refl.setReap (reapLocked_own (kept.locked rfl)))
    | cons first rest =>
      obtain ⟨decision, left⟩ := first
      have appended :
          Near job state (state.append (.applied decision ⟨.interrupted, by_, iso now⟩)) :=
        near_append fun other isTake => by cases isTake
      simp only [reapStep]
      split
      · exact Moves.reaps near_refl kept rfl (fun locked => locked)
          (ids.sub (sublist_cons_self _ _))
      · split
        · exact Moves.reaps appended kept rfl (fun locked => locked) (ids.grows fun _ => appended.taken)
        · exact Moves.reaps appended kept rfl (fun locked => locked) (ids.grows fun _ => appended.taken)
  | halting decision left rest =>
    have appended : Near job state (state.append (haltOf drawn decision now)) :=
      near_append fun other isTake => by cases isTake
    simp only [reapStep]
    split
    · exact Moves.reaps near_refl kept rfl (fun locked => locked)
        (ids.sub (sublist_cons_self _ _))
    · exact Moves.reaps appended kept rfl (fun locked => locked) (ids.grows fun _ => appended.taken)
  | closing decision left rest =>
    have fewer := ids.sub (sublist_cons_self _ _)
    simp only [reapStep]
    split
    · exact Moves.reaps near_refl kept rfl (fun locked => locked) fewer
    · split
      · exact Moves.reaps near_refl.closes kept rfl (fun locked => locked) ids
      · exact Moves.reaps near_refl.closes kept rfl (fun locked => locked) fewer
  | unlinking decision rest =>
    have fewer := ids.sub (sublist_cons_self _ _)
    simp only [reapStep]
    split
    · exact Moves.reaps near_refl kept rfl (fun locked => locked) fewer
    · exact Moves.reaps near_refl.unlink kept rfl (fun locked => locked) fewer

/-! ### Runs -/

theorem goesOn_moves (keeps : Keeps state) (isJob : state.jobs job = some ⟨process, task⟩) :
    Moves job state (step state (.goesOn job turn drawn)) := by
  simp only [step, isJob]
  cases task with
  | act acting => exact actStep_moves keeps isJob
  | withdraw withdrawing => exact withdrawStep_moves keeps isJob
  | find finding =>
    have keep : IdsKeep state.rows finding.ids := keeps.jobs job process _ isJob
    obtain ⟨lock, isNext, -⟩ := findStep_state state job finding turn
    refine Moves.goes (findStep_near state job finding turn) ?_
    show IdsKeep (findStep state job finding turn).1.rows _
    rw [isNext]
    exact findStep_ids keep
  | reap reaping => exact reapStep_moves keeps isJob

theorem die_leaves (stays : ofProcess state process other = false) :
    Leaves other state (die state process) where
  taken _ taken := taken
  notTaken _ _ notTaken := notTaken
  takeLock locked := by simp [die, locked, stays]
  reapLock locked := by simp [die, locked, stays]
  lock inode locked := Flock.drop_exclusive locked stays

theorem die_some {job : Nat} {kept : Job} (isJob : (die state process).jobs job = some kept) :
    state.jobs job = some kept ∧ ofProcess state process job = false := by
  obtain ⟨isOld, isOther⟩ := Option.filter_eq_some_iff.mp isJob
  refine ⟨isOld, ?_⟩
  unfold ofProcess
  rw [isOld]
  simpa using isOther

theorem die_keeps (keeps : Keeps state) : Keeps (die state process) where
  jobs job process task isJob := by
    obtain ⟨isOld, stays⟩ := die_some isJob
    exact (die_leaves stays).keeps (keeps.jobs job process task isOld)
  once := keeps.once
  fresh job isLater := by
    show (state.jobs job).filter _ = none
    rw [keeps.fresh job isLater]
    rfl

theorem begins_keeps (keeps : Keeps state) (starts : JobKeeps (begins state process task)
    state.next task) : Keeps (begins state process task) := by
  have isJob : (begins state process task).jobs state.next = some ⟨process, task⟩ :=
    Function.update_self ..
  have near : Near state.next state (begins state process task) :=
    { near_refl with
      jobs := fun other isOther => Function.update_of_ne isOther _ _
      grows := Nat.le_succ _ }
  refine keeps.changes near (fun other same isSame => ?_) fun isLater => ?_
  · cases isJob.symm.trans isSame
    exact starts
  · exact absurd isLater (Nat.not_succ_le_self _)

/-- **Every step of every process.** -/
theorem step_keeps (state : State) (event : Event) (keeps : Keeps state) :
    Keeps (step state event) := by
  cases event with
  | act process caller decision by_ now =>
    refine begins_keeps keeps ⟨fun locked => ?_, fun took => ?_, rfl⟩
    · cases locked
    · cases took
  | withdraw process decision how by_ now => exact begins_keeps keeps trivial
  | find process => exact begins_keeps keeps idsKeep_nil
  | reap process by_ now =>
    refine begins_keeps keeps ⟨fun locked => ?_, idsKeep_nil⟩
    cases locked
  | goesOn job turn drawn =>
    cases isJob : state.jobs job with
    | none =>
      simp only [step, isJob]
      exact keeps
    | some one =>
      obtain ⟨near, own⟩ := @goesOn_moves _ _ _ _ turn drawn keeps isJob
      refine keeps.changes near own fun isLater => ?_
      have noJob := keeps.fresh job (near.grows.trans isLater)
      rw [noJob] at isJob
      cases isJob
  | writes row =>
    have writes (isOther : ∀ decision, row.takes decision = false) : Keeps (state.append row) := by
      have near : Near state.next state (state.append row) :=
        near_append fun decision isTake => by
          rw [isOther decision] at isTake
          cases isTake
      have noJob : (state.append row).jobs state.next = none := keeps.fresh _ le_rfl
      refine keeps.changes near (fun process task isJob => ?_) fun _ => noJob
      cases noJob.symm.trans isJob
    cases row with
    | decision decided | mark id mark | halt halt | lift id => exact writes fun _ => rfl
    | taken id taken | applied id applied | withdrawn id withdrawn => exact keeps
  | dies process => exact die_keeps keeps

theorem begin_keeps {started closed : List Str} {link : Str → Option Nat} {record : Nat → Bool}
    {inodes : Nat} (once : ∀ decision, rows.countP (Row.takes decision) ≤ 1) :
    Keeps (begin_ rows started closed link record inodes) where
  jobs _ _ _ isJob := by cases isJob
  once := once
  fresh _ _ := rfl

end Nmas.Heal.Act
