import Nmas.Heal.OneTake

/-!
Contract: the mark of an act that took its decision, and who may end it.

Owns:
- `Careful`, the steps that leave a live act's mark under its name;
- the acts that hold what they took (`live`), and the decisions none holds;
- `Marked`, and what a step of one job leaves of it.
-/

namespace Nmas.Heal.Act

open Nmas.Text List
open Nmas.Os (Flock)

def Task.live : Task → Option (Str × Nat)
  | .act acting =>
    if acting.took ∧ acting.stage.locked then some (acting.decision, acting.inode) else none
  | _ => none

def State.live (state : State) (job : Nat) : Option (Str × Nat) :=
  (state.jobs job).bind (fun job => job.task.live)

/-- A job holds the mark of a decision it took. -/
def State.lives (state : State) (job : Nat) (decision : Str) : Bool :=
  (state.live job).any (fun live => live.1 = decision)

/-- **The condition.** An act takes while the file it locked is still its
decision's mark, and removes its decision's mark while no act holds what it took. -/
def Careful (state : State) : Event → Prop
  | .goesOn job turn _ =>
    match state.jobs job with
    | some ⟨_, .act acting⟩ =>
      match acting.stage with
      | .taking _ => turn = .fails ∨ state.link acting.decision = some acting.inode
      | .unlinking =>
        turn = .fails ∨ ∀ other < state.next, state.lives other acting.decision = false
      | _ => True
    | _ => True
  | _ => True

instance (state : State) (event : Event) : Decidable (Careful state event) := by
  unfold Careful
  split
  · split
    · split
      · infer_instance
      · infer_instance
      · infer_instance
    · infer_instance
  · infer_instance

/-- An `applied` row ends the decision. -/
def Applied (rows : List Row) (decision : Str) : Prop := rows.any (Row.applies decision) = true

/-- No act holds the mark of the decision it took. -/
def Over (state : State) (decision : Str) : Prop :=
  ∀ job inode, state.live job ≠ some (decision, inode)

def Stage.undecided : Stage → Bool
  | .returning | .starting | .working | .applying _ _ => true
  | _ => false

def FindMarked (state : State) : Finding → Prop
  | .listing | .unreadable => True
  | .opening _ ended | .relisting ended | .answered ended => ∀ found ∈ ended, Over state found.1
  | .probing decision inode _ ended =>
    (∀ job file, state.live job = some (decision, file) → file = inode) ∧
      ∀ found ∈ ended, Over state found.1
  | .looking decision _ _ ended => Over state decision ∧ ∀ found ∈ ended, Over state found.1

/-- What a reap is to record is over, and has no outcome. -/
def Left (state : State) (found : List (Str × Bool)) : Prop :=
  ∀ one ∈ found, Over state one.1 ∧ ¬ Applied state.rows one.1

def ReapMarked (state : State) : ReapStage → Prop
  | .finding find => FindMarked state find
  | .waiting => True
  | .checking find => FindMarked state find ∧ ∀ found, find = .answered found → Left state found
  | .recording found => Left state found
  | .halting decision _ rest | .closing decision _ rest | .unlinking decision rest =>
    Over state decision ∧ Left state rest

def JobMarked (state : State) : Task → Prop
  | .act acting => acting.stage.undecided = true → ¬ Applied state.rows acting.decision
  | .withdraw _ => True
  | .find finding => FindMarked state finding
  | .reap reaping => ReapMarked state reaping.stage

structure Marked (state : State) : Prop where
  keeps : Keeps state
  linked : ∀ job decision inode, state.live job = some (decision, inode) →
    state.link decision = some inode
  jobs : ∀ job process task, state.jobs job = some ⟨process, task⟩ → JobMarked state task
  once : ∀ decision, state.rows.countP (Row.applies decision) ≤ 1
  taken : ∀ decision, Applied state.rows decision → Taken state.rows decision

variable {state next : State} {job other process : Nat} {task : Task} {acting : Acting}
  {rows : List Row} {decision : Str} {row : Row} {inode : Nat}

@[simp] theorem live_setTask : (state.setTask job process task).live job = task.live := by
  unfold State.live
  rw [State.setTask_job]
  rfl

@[simp] theorem live_ends : (state.ends job).live job = none := by
  unfold State.live
  rw [State.ends_job]
  rfl

theorem live_act (isJob : state.jobs job = some ⟨process, .act acting⟩)
    (took : acting.took) (locked : acting.stage.locked) :
    state.live job = some (acting.decision, acting.inode) := by
  unfold State.live
  rw [isJob]
  show (if acting.took ∧ acting.stage.locked then _ else none) = _
  rw [if_pos ⟨took, locked⟩]

theorem act_held (isHeld : (Task.act acting).live = some (decision, inode)) :
    acting.took ∧ acting.stage.locked ∧ acting.decision = decision ∧ acting.inode = inode := by
  simp only [Task.live] at isHeld
  split at isHeld
  · rename_i held
    cases isHeld
    exact ⟨held.1, held.2, rfl, rfl⟩
  · cases isHeld

theorem act_live (isLive : state.live job = some (decision, inode)) :
    ∃ process acting, state.jobs job = some ⟨process, .act acting⟩ ∧ acting.took ∧
      acting.stage.locked ∧ acting.decision = decision ∧ acting.inode = inode := by
  unfold State.live at isLive
  obtain ⟨⟨process, task⟩, isJob, isTask⟩ := Option.bind_eq_some_iff.mp isLive
  cases task with
  | act acting =>
    exact ⟨process, acting, isJob, act_held isTask⟩
  | withdraw withdrawing | find finding | reap reaping => cases isTask

theorem lives_live (isLive : state.live job = some (decision, inode)) :
    state.lives job decision := by
  unfold State.lives
  rw [isLive]
  simp

theorem Keeps.lock_live (keeps : Keeps state) (isLive : state.live job = some (decision, inode)) :
    (state.lock inode).exclusive = some job ∧ Taken state.rows decision := by
  obtain ⟨process, acting, isJob, took, locked, rfl, rfl⟩ := act_live isLive
  have kept : ActKeeps state job acting := keeps.jobs job process _ isJob
  exact ⟨kept.own locked, kept.took took⟩

theorem Marked.live_unique (marked : Marked state) {one two : Nat}
    (isOne : state.live job = some (decision, one))
    (isOther : state.live other = some (decision, two)) : other = job := by
  have linked := marked.linked job decision one isOne
  rw [marked.linked other decision two isOther, Option.some_inj] at linked
  have held := (marked.keeps.lock_live isOther).1
  rw [linked, (marked.keeps.lock_live isOne).1, Option.some_inj] at held
  exact held.symm

/-! ### What a step leaves of another's marks -/

structure Minds (other : Nat) (state next : State) : Prop where
  live : ∀ job decision inode, Taken state.rows decision →
    next.live job = some (decision, inode) → state.live job = some (decision, inode)
  acts : ∀ decision inode, state.live other = some (decision, inode) →
    ¬ Applied state.rows decision → ¬ Applied next.rows decision
  reaps : state.reapLock = some other → ∀ decision, Over state decision →
    ¬ Applied state.rows decision → ¬ Applied next.rows decision

theorem Minds.stays_over (minds : Minds other state next) (taken : Taken state.rows decision)
    (isOver : Over state decision) : Over next decision :=
  fun job inode isLive => isOver job inode (minds.live job decision inode taken isLive)

theorem Minds.left (minds : Minds other state next) {found : List (Str × Bool)}
    (locked : state.reapLock = some other)
    (taken : ∀ one ∈ found, Taken state.rows one.1) (isLeft : Left state found) :
    Left next found := by
  intro one isOne
  obtain ⟨isOver, notApplied⟩ := isLeft one isOne
  exact ⟨minds.stays_over (taken one isOne) isOver, minds.reaps locked one.1 isOver notApplied⟩

theorem Minds.find (minds : Minds other state next) {finding : Finding}
    (keep : IdsKeep state.rows finding.ids) (marked : FindMarked state finding) :
    FindMarked next finding := by
  have overs {ended : List (Str × Bool)}
      (taken : ∀ one ∈ ended, one.1 ∈ finding.ids)
      (isOver : ∀ one ∈ ended, Over state one.1) : ∀ one ∈ ended, Over next one.1 :=
    fun one isOne => minds.stays_over (keep.taken one.1 (taken one isOne)) (isOver one isOne)
  cases finding with
  | listing | unreadable => trivial
  | opening rest ended =>
    exact overs (fun one isOne => mem_append_left _ (mem_map_of_mem isOne)) marked
  | probing decision inode rest ended =>
    obtain ⟨isProbed, isOver⟩ := marked
    refine ⟨fun job file isLive => isProbed job file (minds.live job decision file ?_ isLive),
      overs (fun one isOne => mem_append_left _ (mem_map_of_mem isOne)) isOver⟩
    exact keep.taken decision (mem_append_right _ (.head _))
  | looking decision inode rest ended =>
    obtain ⟨isEnded, isOver⟩ := marked
    refine ⟨minds.stays_over (keep.taken decision ?_) isEnded,
      overs (fun one isOne => mem_append_left _ (mem_map_of_mem isOne)) isOver⟩
    exact mem_append_right _ (.head _)
  | relisting ended => exact overs (fun one isOne => mem_map_of_mem isOne) marked
  | answered found => exact overs (fun one isOne => mem_map_of_mem isOne) marked

theorem Minds.reap (minds : Minds other state next) {reaping : Reaping}
    (keeps : ReapKeeps state other reaping) (marked : ReapMarked state reaping.stage) :
    ReapMarked next reaping.stage := by
  obtain ⟨by_, now, stage⟩ := reaping
  have ids := keeps.ids
  have rest_taken {decision : Str} {rest : List (Str × Bool)}
      (keep : IdsKeep state.rows (decision :: rest.map Prod.fst)) :
      ∀ one ∈ rest, Taken state.rows one.1 :=
    fun one isOne => keep.taken one.1 (.tail _ (mem_map_of_mem isOne))
  cases stage with
  | finding find => exact minds.find ids marked
  | waiting => trivial
  | checking find =>
    have keep : IdsKeep state.rows find.ids := ids
    refine ⟨minds.find keep marked.1, fun found isFound => ?_⟩
    refine minds.left (keeps.locked rfl) (fun one isOne => keep.taken one.1 ?_)
      (marked.2 found isFound)
    rw [isFound]
    exact mem_map_of_mem isOne
  | recording found =>
    exact minds.left (keeps.locked rfl)
      (fun one isOne => ids.taken one.1 (mem_map_of_mem isOne)) marked
  | halting decision left rest | closing decision left rest | unlinking decision rest =>
    exact ⟨minds.stays_over (ids.taken _ (.head _)) marked.1,
      minds.left (keeps.locked rfl) (rest_taken ids) marked.2⟩

theorem undecided_locked {stage : Stage} (isUndecided : stage.undecided = true) : stage.locked := by
  cases stage with
  | returning | starting | working | applying outcome source => rfl
  | _ => cases isUndecided

theorem ActKeeps.undecided (keeps : ActKeeps state job acting)
    (isUndecided : acting.stage.undecided = true) : acting.took = true := by
  have read := keeps.stage
  obtain ⟨caller, decision, by_, now, inode, took, incident, stage⟩ := acting
  cases stage with
  | returning | starting | working | applying outcome source => exact read
  | _ => cases isUndecided

theorem Minds.keeps (minds : Minds other state next)
    (isJob : state.jobs other = some ⟨process, task⟩) (keeps : JobKeeps state other task)
    (marked : JobMarked state task) : JobMarked next task := by
  cases task with
  | act acting =>
    intro isUndecided
    have kept : ActKeeps state other acting := keeps
    have isLive := live_act isJob (kept.undecided isUndecided) (undecided_locked isUndecided)
    exact minds.acts _ _ isLive (marked isUndecided)
  | withdraw withdrawing => trivial
  | find finding => exact minds.find keeps marked
  | reap reaping => exact minds.reap keeps marked

structure Fewer (state next : State) : Prop where
  rows : next.rows = state.rows
  live : ∀ job decision inode, next.live job = some (decision, inode) →
    state.live job = some (decision, inode)

namespace Fewer

theorem stays_over (fewer : Fewer state next) (isOver : Over state decision) : Over next decision :=
  fun job inode isLive => isOver job inode (fewer.live job decision inode isLive)

theorem applied (fewer : Fewer state next) (notApplied : ¬ Applied state.rows decision) :
    ¬ Applied next.rows decision := by
  rw [fewer.rows]
  exact notApplied

theorem left (fewer : Fewer state next) {found : List (Str × Bool)} (isLeft : Left state found) :
    Left next found :=
  fun one isOne => ⟨fewer.stays_over (isLeft one isOne).1, fewer.applied (isLeft one isOne).2⟩

theorem find (fewer : Fewer state next) {finding : Finding} (marked : FindMarked state finding) :
    FindMarked next finding := by
  cases finding with
  | listing | unreadable => trivial
  | opening rest ended => exact fun one isOne => fewer.stays_over (marked one isOne)
  | relisting ended => exact fun one isOne => fewer.stays_over (marked one isOne)
  | answered found => exact fun one isOne => fewer.stays_over (marked one isOne)
  | probing decision inode rest ended =>
    refine ⟨fun job file isLive => marked.1 job file (fewer.live job decision file isLive),
      fun one isOne => fewer.stays_over (marked.2 one isOne)⟩
  | looking decision inode rest ended =>
    exact ⟨fewer.stays_over marked.1, fun one isOne => fewer.stays_over (marked.2 one isOne)⟩

theorem reap (fewer : Fewer state next) {stage : ReapStage} (marked : ReapMarked state stage) :
    ReapMarked next stage := by
  cases stage with
  | finding find => exact fewer.find marked
  | waiting => trivial
  | checking find =>
    exact ⟨fewer.find marked.1, fun found isFound => fewer.left (marked.2 found isFound)⟩
  | recording found => exact fewer.left marked
  | halting decision left rest => exact ⟨fewer.stays_over marked.1, fewer.left marked.2⟩
  | closing decision left rest => exact ⟨fewer.stays_over marked.1, fewer.left marked.2⟩
  | unlinking decision rest => exact ⟨fewer.stays_over marked.1, fewer.left marked.2⟩

theorem keeps (fewer : Fewer state next) (marked : JobMarked state task) : JobMarked next task := by
  cases task with
  | act acting => exact fun isUndecided => fewer.applied (marked isUndecided)
  | withdraw withdrawing => trivial
  | find finding => exact fewer.find marked
  | reap reaping => exact fewer.reap marked

end Fewer

/-! ### A step of one job -/

def Applies (state : State) (job : Nat) (decision : Str) : Prop :=
  Taken state.rows decision ∧ ¬ Applied state.rows decision ∧
    ((∃ inode, state.live job = some (decision, inode)) ∨
      (state.reapLock = some job ∧ Over state decision))

structure Neat (job : Nat) (state next : State) : Prop where
  applies : ∃ added : Option Row, next.rows = state.rows ++ added.toList ∧
    ∀ row ∈ added, ∀ decision, row.applies decision = true → Applies state job decision
  live : ∀ decision inode, next.live job = some (decision, inode) →
    state.live job = some (decision, inode) ∨
      (¬ Taken state.rows decision ∧ next.link decision = some inode)
  link : ∀ decision inode, state.link decision = some inode →
    next.link decision = some inode ∨ Over state decision

theorem Neat.applied (neat : Neat job state next) (isApplied : Applied next.rows decision) :
    Applied state.rows decision ∨ Applies state job decision := by
  obtain ⟨added, isNext, applies⟩ := neat.applies
  unfold Applied at isApplied
  rw [isNext, any_append, Bool.or_eq_true] at isApplied
  refine isApplied.imp_right fun isAdded => ?_
  obtain ⟨row, isRow, isOutcome⟩ := any_eq_true.mp isAdded
  exact applies row (Option.mem_toList.mp isRow) decision isOutcome

theorem Neat.once (neat : Neat job state next)
    (once : ∀ decision, state.rows.countP (Row.applies decision) ≤ 1) (decision : Str) :
    next.rows.countP (Row.applies decision) ≤ 1 := by
  obtain ⟨added, isNext, applies⟩ := neat.applies
  rw [isNext, countP_append]
  cases added with
  | none => exact once decision
  | some row =>
    by_cases isOutcome : row.applies decision = true
    · have notApplied := (applies row rfl decision isOutcome).2.1
      have noOutcome : state.rows.countP (Row.applies decision) = 0 := by
        rw [countP_eq_zero]
        intro old isOld oldApplies
        exact notApplied (any_eq_true.mpr ⟨old, isOld, oldApplies⟩)
      rw [noOutcome]
      exact (Nat.zero_add _).le.trans countP_le_length
    · simpa [isOutcome] using once decision

theorem live_other (near : Near job state next) (isOther : other ≠ job) :
    next.live other = state.live other := by
  unfold State.live
  rw [near.jobs other isOther]

theorem Neat.minds (neat : Neat job state next) (near : Near job state next)
    (marked : Marked state) (isOther : other ≠ job) : Minds other state next where
  live one decision inode taken isLive := by
    by_cases isOwn : one = job
    · subst isOwn
      exact (neat.live decision inode isLive).resolve_right fun isNew => isNew.1 taken
    · rwa [live_other near isOwn] at isLive
  acts decision inode isLive notApplied isApplied := by
    obtain ⟨-, -, ⟨file, isOwn⟩ | ⟨-, isOver⟩⟩ := (neat.applied isApplied).resolve_left notApplied
    · exact isOther (marked.live_unique isOwn isLive)
    · exact isOver other inode isLive
  reaps locked decision isOver notApplied isApplied := by
    obtain ⟨-, -, ⟨file, isOwn⟩ | ⟨isReap, -⟩⟩ := (neat.applied isApplied).resolve_left notApplied
    · exact isOver job file isOwn
    · rw [locked, Option.some_inj] at isReap
      exact isOther isReap

theorem Marked.changes (marked : Marked state) (near : Near job state next)
    (neat : Neat job state next) (keeps : Keeps next)
    (own : ∀ process task, next.jobs job = some ⟨process, task⟩ → JobMarked next task) :
    Marked next where
  keeps := keeps
  linked one decision inode isLive := by
    by_cases isOwn : one = job
    · subst isOwn
      rcases neat.live decision inode isLive with isOld | ⟨-, isLinked⟩
      · have linked := marked.linked one decision inode isOld
        exact (neat.link decision inode linked).resolve_right fun isOver => isOver one inode isOld
      · exact isLinked
    · rw [live_other near isOwn] at isLive
      have linked := marked.linked one decision inode isLive
      exact (neat.link decision inode linked).resolve_right fun isOver => isOver one inode isLive
  jobs one process task isJob := by
    by_cases isOwn : one = job
    · subst isOwn
      exact own process task isJob
    · rw [near.jobs one isOwn] at isJob
      exact (neat.minds near marked isOwn).keeps isJob (marked.keeps.jobs one process task isJob)
        (marked.jobs one process task isJob)
  once := neat.once marked.once
  taken decision isApplied := by
    rcases neat.applied isApplied with before | applies
    · exact near.taken (marked.taken decision before)
    · exact near.taken applies.1

end Nmas.Heal.Act
