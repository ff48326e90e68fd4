import Nmas.Heal.Act
import Nmas.Heal.Takes

/-!
Contract: a decision is taken once, over every interleaving.

Owns:
- the locks a job has at each of its steps, and what it has read under them;
- what a step of one job leaves of another's;
- `Keeps`, kept by every step of every process.
-/

namespace Nmas.Heal.Act

open Nmas.Text List
open Nmas.Os (Flock)

def Taken (rows : List Row) (decision : Str) : Prop := rows.any (Row.takes decision) = true

def Stage.locked : Stage → Bool
  | .opening | .locking | .unlinking => false
  | _ => true

def StageKeeps (state : State) (job : Nat) (acting : Acting) : Prop :=
  match acting.stage with
  | .opening | .locking | .clearing | .marking | .waiting => acting.took = false
  | .reading => acting.took = false ∧ state.takeLock = some job
  | .taking row => acting.took = false ∧ state.takeLock = some job ∧
      (∃ taken, row = .taken acting.decision taken) ∧ ¬ Taken state.rows acting.decision
  | .returning | .starting | .working | .applying _ _ | .halting | .closing _ _ =>
    acting.took = true
  | .emptying | .unlocking | .unlinking | .kept => True

structure ActKeeps (state : State) (job : Nat) (acting : Acting) : Prop where
  own : acting.stage.locked = true → (state.lock acting.inode).exclusive = some job
  took : acting.took = true → Taken state.rows acting.decision
  stage : StageKeeps state job acting

def WithdrawKeeps (state : State) (job : Nat) (withdrawing : Withdrawing) : Prop :=
  match withdrawing.stage with
  | .waiting => True
  | .reading => state.takeLock = some job
  | .withdrawing row => state.takeLock = some job ∧
      (∃ withdrawn, row = .withdrawn withdrawing.decision withdrawn) ∧
      ¬ Taken state.rows withdrawing.decision

def Finding.ids : Finding → List Str
  | .listing | .unreadable => []
  | .opening rest ended => ended.map Prod.fst ++ rest
  | .probing decision _ rest ended | .looking decision _ rest ended =>
    ended.map Prod.fst ++ decision :: rest
  | .relisting ended | .answered ended => ended.map Prod.fst

structure IdsKeep (rows : List Row) (ids : List Str) : Prop where
  distinct : ids.Nodup
  taken : ∀ decision ∈ ids, Taken rows decision

def ReapStage.ids : ReapStage → List Str
  | .finding find | .checking find => find.ids
  | .waiting => []
  | .recording found => found.map Prod.fst
  | .halting decision _ rest | .closing decision _ rest | .unlinking decision rest =>
    decision :: rest.map Prod.fst

def ReapStage.locked : ReapStage → Bool
  | .finding _ | .waiting => false
  | _ => true

structure ReapKeeps (state : State) (job : Nat) (reaping : Reaping) : Prop where
  locked : reaping.stage.locked = true → state.reapLock = some job
  ids : IdsKeep state.rows reaping.stage.ids

def JobKeeps (state : State) (job : Nat) : Task → Prop
  | .act acting => ActKeeps state job acting
  | .withdraw withdrawing => WithdrawKeeps state job withdrawing
  | .find finding => IdsKeep state.rows finding.ids
  | .reap reaping => ReapKeeps state job reaping

structure Keeps (state : State) : Prop where
  jobs : ∀ job process task, state.jobs job = some ⟨process, task⟩ → JobKeeps state job task
  once : ∀ decision, state.rows.countP (Row.takes decision) ≤ 1
  fresh : ∀ job, state.next ≤ job → state.jobs job = none

variable {state next : State} {job other process : Nat} {task : Task} {acting : Acting}
  {rows added : List Row} {decision : Str} {row : Row}

theorem Taken.append (taken : Taken rows decision) : Taken (rows ++ added) decision := by
  unfold Taken
  rw [any_append, Bool.or_eq_true]
  exact .inl taken

theorem IdsKeep.sub {ids fewer : List Str} (keep : IdsKeep rows ids) (sub : fewer.Sublist ids) :
    IdsKeep rows fewer :=
  ⟨sub.nodup keep.distinct, fun decision member => keep.taken decision (sub.subset member)⟩

theorem idsKeep_nil : IdsKeep rows [] := ⟨nodup_nil, nofun⟩

/-! ### What a step of one job leaves of another's -/

/-- What a step leaves of a job that did not take it. -/
structure Leaves (other : Nat) (state next : State) : Prop where
  taken : ∀ decision, Taken state.rows decision → Taken next.rows decision
  notTaken : state.takeLock = some other →
    ∀ decision, ¬ Taken state.rows decision → ¬ Taken next.rows decision
  takeLock : state.takeLock = some other → next.takeLock = some other
  reapLock : state.reapLock = some other → next.reapLock = some other
  lock : ∀ inode, (state.lock inode).exclusive = some other →
    (next.lock inode).exclusive = some other

theorem IdsKeep.grows {ids : List Str} (keep : IdsKeep state.rows ids)
    (taken : ∀ decision, Taken state.rows decision → Taken next.rows decision) :
    IdsKeep next.rows ids :=
  ⟨keep.distinct, fun decision member => taken decision (keep.taken decision member)⟩

theorem Leaves.act (leaves : Leaves other state next) (keeps : ActKeeps state other acting) :
    ActKeeps next other acting where
  own locked := leaves.lock _ (keeps.own locked)
  took took := leaves.taken _ (keeps.took took)
  stage := by
    have kept := keeps.stage
    obtain ⟨caller, decision, by_, now, inode, took, incident, stage⟩ := acting
    cases stage with
    | reading => exact ⟨kept.1, leaves.takeLock kept.2⟩
    | taking row =>
      obtain ⟨notTook, locked, isRow, notTaken⟩ := kept
      exact ⟨notTook, leaves.takeLock locked, isRow, leaves.notTaken locked _ notTaken⟩
    | _ => exact kept

theorem Leaves.keeps (leaves : Leaves other state next) (keeps : JobKeeps state other task) :
    JobKeeps next other task := by
  cases task with
  | act acting => exact leaves.act keeps
  | withdraw withdrawing =>
    obtain ⟨decision, how, by_, now, stage⟩ := withdrawing
    cases stage with
    | waiting => trivial
    | reading => exact leaves.takeLock keeps
    | withdrawing row =>
      obtain ⟨locked, isRow, notTaken⟩ := keeps
      exact ⟨leaves.takeLock locked, isRow, leaves.notTaken locked _ notTaken⟩
  | find finding => exact keeps.grows leaves.taken
  | reap reaping =>
    exact ⟨fun locked => leaves.reapLock (keeps.locked locked), keeps.ids.grows leaves.taken⟩

/-- A step of one job: it appends a row or none, takes only under the take's lock
and only what is not taken, and leaves the other jobs and their locks. -/
structure Near (job : Nat) (state next : State) : Prop where
  rows : ∃ added : Option Row, next.rows = state.rows ++ added.toList ∧
    ∀ row ∈ added, ∀ decision, row.takes decision = true →
      state.takeLock = some job ∧ ¬ Taken state.rows decision
  takeLock : ∀ other, other ≠ job → state.takeLock = some other → next.takeLock = some other
  reapLock : ∀ other, other ≠ job → state.reapLock = some other → next.reapLock = some other
  lock : ∀ inode other, other ≠ job → (state.lock inode).exclusive = some other →
    (next.lock inode).exclusive = some other
  jobs : ∀ other, other ≠ job → next.jobs other = state.jobs other
  grows : state.next ≤ next.next

theorem Near.taken (near : Near job state next) (taken : Taken state.rows decision) :
    Taken next.rows decision := by
  obtain ⟨added, isNext, -⟩ := near.rows
  rw [isNext]
  exact taken.append

theorem Near.notTaken (near : Near job state next) (isOther : other ≠ job)
    (locked : state.takeLock = some other) (notTaken : ¬ Taken state.rows decision) :
    ¬ Taken next.rows decision := by
  obtain ⟨added, isNext, takes⟩ := near.rows
  intro taken
  unfold Taken at taken
  rw [isNext, any_append, Bool.or_eq_true] at taken
  rcases taken with before | isAdded
  · exact notTaken before
  · obtain ⟨row, isRow, isTake⟩ := any_eq_true.mp isAdded
    have owned := (takes row (Option.mem_toList.mp isRow) decision isTake).1
    rw [owned, Option.some_inj] at locked
    exact isOther locked.symm

theorem Near.leaves (near : Near job state next) (isOther : other ≠ job) :
    Leaves other state next where
  taken _ taken := near.taken taken
  notTaken locked _ notTaken := near.notTaken isOther locked notTaken
  takeLock locked := near.takeLock other isOther locked
  reapLock locked := near.reapLock other isOther locked
  lock inode locked := near.lock inode other isOther locked

theorem Near.once (near : Near job state next)
    (once : ∀ decision, state.rows.countP (Row.takes decision) ≤ 1) (decision : Str) :
    next.rows.countP (Row.takes decision) ≤ 1 := by
  obtain ⟨added, isNext, takes⟩ := near.rows
  rw [isNext, countP_append]
  cases added with
  | none => exact once decision
  | some row =>
    by_cases isTake : row.takes decision = true
    · have notTaken := (takes row rfl decision isTake).2
      have noTake : state.rows.countP (Row.takes decision) = 0 := by
        rw [countP_eq_zero]
        intro old isOld oldTakes
        exact notTaken (any_eq_true.mpr ⟨old, isOld, oldTakes⟩)
      rw [noTake]
      exact (Nat.zero_add _).le.trans countP_le_length
    · simpa [isTake] using once decision

theorem Keeps.changes (keeps : Keeps state) (near : Near job state next)
    (own : ∀ process task, next.jobs job = some ⟨process, task⟩ → JobKeeps next job task)
    (isFresh : next.next ≤ job → next.jobs job = none) : Keeps next where
  jobs other process task isJob := by
    by_cases isOwn : other = job
    · subst isOwn
      exact own process task isJob
    · rw [near.jobs other isOwn] at isJob
      exact (near.leaves isOwn).keeps (keeps.jobs other process task isJob)
  once := near.once keeps.once
  fresh other isLater := by
    by_cases isOwn : other = job
    · subst isOwn
      exact isFresh isLater
    · rw [near.jobs other isOwn]
      exact keeps.fresh other (near.grows.trans isLater)

/-! ### The parts of a step -/

theorem near_refl : Near job state state :=
  ⟨⟨none, by simp, by simp⟩, fun _ _ locked => locked, fun _ _ locked => locked,
    fun _ _ _ locked => locked, fun _ _ => rfl, le_rfl⟩

theorem near_append
    (takes : ∀ decision, row.takes decision →
      state.takeLock = some job ∧ ¬ Taken state.rows decision) :
    Near job state (state.append row) :=
  ⟨⟨some row, rfl, by simpa using takes⟩, fun _ _ locked => locked, fun _ _ locked => locked,
    fun _ _ _ locked => locked, fun _ _ => rfl, le_rfl⟩

namespace Near

theorem setTake {lock : Option Nat} (near : Near job state next)
    (isOwn : ∀ other, other ≠ job → state.takeLock ≠ some other) :
    Near job state { next with takeLock := lock } :=
  { near with takeLock := fun other isOther locked => absurd locked (isOwn other isOther) }

theorem setReap {lock : Option Nat} (near : Near job state next)
    (isOwn : ∀ other, other ≠ job → state.reapLock ≠ some other) :
    Near job state { next with reapLock := lock } :=
  { near with reapLock := fun other isOther locked => absurd locked (isOwn other isOther) }

theorem setTask (near : Near job state next) : Near job state (next.setTask job process task) :=
  { near with
    jobs := fun other isOther => by
      rw [← near.jobs other isOther]
      exact Function.update_of_ne isOther _ _ }

theorem ends (near : Near job state next) : Near job state (next.ends job) :=
  { near with
    jobs := fun other isOther => by
      rw [← near.jobs other isOther]
      exact Function.update_of_ne isOther _ _ }

theorem setLock {inode : Nat} {lock : Flock Nat} (near : Near job state next)
    (stays : ∀ other, other ≠ job → (next.lock inode).exclusive = some other →
      lock.exclusive = some other) :
    Near job state (next.setLock inode lock) :=
  { near with
    lock := fun file other isOther locked => by
      have held := near.lock file other isOther locked
      unfold State.setLock
      by_cases isFile : file = inode
      · subst isFile
        simpa using stays other isOther held
      · simpa [isFile] using held }

theorem unlock {inode : Nat} (near : Near job state next) :
    Near job state (next.unlock inode job) :=
  near.setLock fun _ isOther held => Flock.unlock_exclusive held isOther

theorem setRecord {inode : Nat} {record : Bool} (near : Near job state next) :
    Near job state (next.setRecord inode record) :=
  { near with }

theorem unlink (near : Near job state next) : Near job state (next.unlink decision) := { near with }

theorem starts (near : Near job state next) :
    Near job state { next with started := next.started ++ [decision] } :=
  { near with }

theorem closes {incident : Str} (near : Near job state next) :
    Near job state { next with closed := next.closed ++ [incident] } :=
  { near with }

end Near

theorem near_openMark : Near job state (openMark state decision).1 := by
  unfold openMark
  split
  · exact near_refl
  · exact { near_refl with }

end Nmas.Heal.Act
