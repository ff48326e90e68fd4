import Nmas.Ai.OneRequest

/-!
Contract: a press's key is answered once.

Owns:
- `Kept`, the steps that keep a key's files and its answer;
- `Once`, what every step of every process keeps of a key;
- the runs of any presses: one `make` at a time for a request, and one completed
  for a key.
-/

namespace Nmas.Ai.Presses

open Nmas.Text Option
open Nmas.Log.Machine (run Along run_keeps)

/-- From the key's marker read to the end of `make`. -/
def Stage.clears : Stage → Bool
  | .reqOpening | .reqLocking _ | .reqReading | .reqJoining _ | .keyJoined _ | .marking
  | .keyMarking | .making => true
  | _ => false

/-- From the end of `make` to the key's marker. -/
def Stage.answered : Stage → Option Str
  | .marked call | .keyMarked call => some call
  | _ => none

/-- The step loses its press's answer: a call with no id, a marker that fails,
a row a join cannot read. -/
def Press.loses (press : Press) (turn : Turn) : Bool :=
  match press.stage, turn with
  | .making, .makes [] => true
  | .keyJoining _, .fails | .marked _, .fails | .keyMarked _, .fails => true
  | _, _ => false

/-- When a pruning press read the clock. -/
def Stage.pruned : Stage → Option Clock
  | .pruning now => some now
  | _ => none

/-- **The condition.** No prune finds the key's files older than `KEEP_S`, and no
press of the key loses its answer, or ends between `make` and the key's marker. -/
def Kept (key : Key) (state : State) : Event → Prop
  | .checks job file =>
    file = .lock (.key key) ∨ file = .marker (.key key) →
      ∀ press ∈ state.jobs job, ∀ now ∈ press.stage.pruned, ∀ time ∈ state.time file,
        now - time ≤ keepS
  | .goesOn job turn =>
    ∀ press ∈ state.jobs job, press.mine = some key → press.loses turn = false
  | .dies process =>
    ∀ job < state.next, ∀ press ∈ state.jobs job, press.process = process →
      press.mine = some key → press.stage.answered = none
  | _ => True

def Answered (key : Key) (state : State) : Prop :=
  ∃ call scope time, state.marker (.key key) = some (.done call scope, time) ∧ call ≠ []

structure Once (key : Key) (state : State) : Prop where
  locked : Locked state
  linked : Linked (.key key) state
  count : state.made.count key ≤ 1
  clear : ∀ job press, state.jobs job = some press → press.mine = some key →
    press.stage.clears = true → state.made.count key = 0
  done : state.made.count key = 1 → Answered key state ∨
    ∃ job press, state.jobs job = some press ∧ press.mine = some key ∧
      press.stage.answered.isSome = true
  called : ∀ job press call, state.jobs job = some press → press.mine = some key →
    press.stage.answered = some call → call ≠ []
  young : ∀ job press now file, state.jobs job = some press →
    press.stage = .unlinking now file → file ≠ .lock (.key key) ∧ file ≠ .marker (.key key)

variable {state next : State} {job other : Nat} {press one : Press} {slot : Slot} {turn : Turn}
  {stage : Stage} {key : Key}

theorem clears_held (clears : stage.clears) : stage.mineHeld := by
  cases stage <;> first | rfl | cases clears

theorem answered_held (answered : stage.answered.isSome) : stage.mineHeld := by
  cases stage <;> first | rfl | cases answered

theorem holds_key (isMine : press.mine = some key) (held : press.stage.mineHeld) :
    press.holds (.key key) := decide_eq_true ⟨isMine, held⟩

theorem Once.unique (once : Once key state) (isJob : state.jobs job = some press)
    (isOther : state.jobs other = some one) (isMine : press.mine = some key)
    (alsoMine : one.mine = some key) (held : press.stage.mineHeld)
    (alsoHeld : one.stage.mineHeld) : other = job :=
  once.locked.unique once.linked isOther isJob (holds_key alsoMine alsoHeld) (holds_key isMine held)

/-- What a step leaves of the key: its own press's obligations, and the others'. -/
structure Leaves (key : Key) (job : Nat) (press : Press) (state next : State) : Prop where
  count : next.made.count key ≤ 1
  made : next.made.count key = state.made.count key ∨
    (press.mine = some key ∧ press.stage.mineHeld = true)
  clear : ∀ after, next.jobs job = some after → after.mine = some key →
    after.stage.clears = true → next.made.count key = 0
  done : next.made.count key = 1 → Answered key next ∨
    (∃ after, next.jobs job = some after ∧ after.mine = some key ∧
      after.stage.answered.isSome = true) ∨
      ∃ other one, other ≠ job ∧ state.jobs other = some one ∧ one.mine = some key ∧
        one.stage.answered.isSome = true
  called : ∀ after call, next.jobs job = some after → after.mine = some key →
    after.stage.answered = some call → call ≠ []
  young : ∀ after now file, next.jobs job = some after →
    after.stage = .unlinking now file → file ≠ .lock (.key key) ∧ file ≠ .marker (.key key)

theorem Once.changes {removed : Option Slot} (once : Once key state)
    (isJob : state.jobs job = some press) (near : Near job removed state next)
    (leaves : Leaves key job press state next) (locked : Locked next)
    (linked : Linked (.key key) next) : Once key next where
  locked := locked
  linked := linked
  count := leaves.count
  clear one after isAfter isMine clears := by
    by_cases isOwn : one = job
    · subst isOwn
      exact leaves.clear after isAfter isMine clears
    · rw [near.jobs one isOwn] at isAfter
      rcases leaves.made with same | ⟨isPress, held⟩
      · rw [same]
        exact once.clear one after isAfter isMine clears
      · exact absurd (once.unique isJob isAfter isPress isMine held (clears_held clears)) isOwn
  done isMade := by
    rcases leaves.done isMade with answered | ⟨after, isAfter⟩ | ⟨other, one, isOther, isOne, rest⟩
    · exact .inl answered
    · exact .inr ⟨job, after, isAfter⟩
    · refine .inr ⟨other, one, ?_, rest⟩
      rw [near.jobs other isOther]
      exact isOne
  called one after call isAfter isMine answered := by
    by_cases isOwn : one = job
    · subst isOwn
      exact leaves.called after call isAfter isMine answered
    · rw [near.jobs one isOwn] at isAfter
      exact once.called one after call isAfter isMine answered
  young one after now file isAfter isStage := by
    by_cases isOwn : one = job
    · subst isOwn
      exact leaves.young after now file isAfter isStage
    · rw [near.jobs one isOwn] at isAfter
      exact once.young one after now file isAfter isStage

theorem Leaves.on {after : Press} (once : Once key state) (isJob : state.jobs job = some press)
    (sameMine : after.mine = press.mine)
    (made : next.made.count key = state.made.count key)
    (marker : next.marker (.key key) = state.marker (.key key) ∨ state.made.count key = 0)
    (clear : press.mine = some key → after.stage.clears → state.made.count key = 0)
    (answered : press.mine = some key → after.stage.answered = press.stage.answered)
    (young : ∀ now file, after.stage ≠ .unlinking now file) :
    Leaves key job press state (next.setPress job after) where
  count := made.le.trans once.count
  made := .inl made
  clear one isOne isMine clears := by
    rw [State.setPress_job, some_inj] at isOne
    subst isOne
    exact made.trans (clear (sameMine.symm.trans isMine) clears)
  done isMade := by
    have wasMade : state.made.count key = 1 := made.symm.trans isMade
    have sameMarker := marker.resolve_right fun isZero => by omega
    rcases once.done wasMade with ⟨call, scope, time, isMarker, notNil⟩ | ⟨one, two, isTwo, isMine, isAnswered⟩
    · exact .inl ⟨call, scope, time, sameMarker.trans isMarker, notNil⟩
    · refine .inr ?_
      by_cases isOwn : one = job
      · subst isOwn
        cases isJob.symm.trans isTwo
        refine .inl ⟨after, State.setPress_job, sameMine.trans isMine, ?_⟩
        rw [answered isMine]
        exact isAnswered
      · exact .inr ⟨one, two, isOwn, isTwo, isMine, isAnswered⟩
  called one call isOne isMine isAnswered := by
    rw [State.setPress_job, some_inj] at isOne
    subst isOne
    rw [answered (sameMine.symm.trans isMine)] at isAnswered
    exact once.called job press call isJob (sameMine.symm.trans isMine) isAnswered
  young one now file isOne isStage := by
    rw [State.setPress_job, some_inj] at isOne
    subst isOne
    exact absurd isStage (young now file)

theorem Leaves.stays (once : Once key state) (isJob : state.jobs job = some press) :
    Leaves key job press state state where
  count := once.count
  made := .inl rfl
  clear := once.clear job
  done isMade := by
    rcases once.done isMade with answered | ⟨one, two, isTwo, isMine, isAnswered⟩
    · exact .inl answered
    · refine .inr ?_
      by_cases isOwn : one = job
      · subst isOwn
        exact .inl ⟨two, isTwo, isMine, isAnswered⟩
      · exact .inr ⟨one, two, isOwn, isTwo, isMine, isAnswered⟩
  called := once.called job
  young := once.young job

theorem Once.unmade (once : Once key state) (isJob : state.jobs job = some press)
    (isMine : press.mine = some key) (held : press.stage.mineHeld)
    (notAnswered : press.stage.answered = none) (noAnswer : ¬ Answered key state) :
    state.made.count key = 0 := by
  by_contra isMade
  have one : state.made.count key = 1 := by
    have most := once.count
    omega
  obtain ⟨other, two, isTwo, alsoMine, isAnswered⟩ := (once.done one).resolve_left noAnswer
  have same := once.unique isJob isTwo isMine alsoMine held (answered_held isAnswered)
  subst same
  cases isJob.symm.trans isTwo
  rw [notAnswered] at isAnswered
  cases isAnswered

theorem mark_other {marker : Marker} (isOther : slot ≠ .key key) :
    (state.mark slot marker).marker (.key key) = state.marker (.key key) :=
  Function.update_of_ne isOther.symm _ _

theorem openLock_kept : (openLock state slot).1.made = state.made ∧
    (openLock state slot).1.marker = state.marker := by
  unfold openLock
  split
  · exact ⟨rfl, rfl⟩
  · exact ⟨rfl, rfl⟩

theorem unlink_kept {file : File} (notMarker : file ≠ .marker (.key key)) :
    (state.unlink file).made = state.made ∧
      (state.unlink file).marker (.key key) = state.marker (.key key) := by
  cases file with
  | lock slot => exact ⟨rfl, rfl⟩
  | marker slot =>
    refine ⟨rfl, Function.update_of_ne ?_ _ _⟩
    rintro rfl
    exact notMarker rfl

theorem left_plain {now : Clock} : (press.left now).clears = false ∧
    (press.left now).answered = none ∧ ∀ when file, press.left now ≠ .unlinking when file := by
  unfold Press.left
  split
  · exact ⟨rfl, rfl, nofun⟩
  · exact ⟨rfl, rfl, nofun⟩

theorem Leaves.makes {call : Str} (once : Once key state) (isJob : state.jobs job = some press)
    (isMaking : press.stage = .making) (named : press.mine = some key → call ≠ []) :
    Leaves key job press state
      (State.setPress { state with made := state.made ++ press.mine.toList } job
        { press with stage := .marked call }) := by
  have clears : press.stage.clears := by rw [isMaking]; rfl
  have held : press.stage.mineHeld := clears_held clears
  by_cases isMine : press.mine = some key
  · have isZero := once.clear job press isJob isMine clears
    have isOne : (state.made ++ press.mine.toList).count key = 1 := by
      rw [isMine, List.count_append, isZero]
      simp
    constructor
    · exact isOne.le
    · exact .inr ⟨isMine, held⟩
    · intro after isAfter _ clears
      rw [State.setPress_job, some_inj] at isAfter
      subst isAfter
      cases clears
    · exact fun _ => .inr (.inl ⟨_, State.setPress_job, isMine, rfl⟩)
    · intro after one isAfter _ answered
      rw [State.setPress_job, some_inj] at isAfter
      subst isAfter
      cases answered
      exact named isMine
    · intro after now file isAfter isStage
      rw [State.setPress_job, some_inj] at isAfter
      subst isAfter
      cases isStage
  · have same : (state.made ++ press.mine.toList).count key = state.made.count key := by
      have notIn : key ∉ press.mine.toList := by simpa using isMine
      rw [List.count_append, List.count_eq_zero_of_not_mem notIn, Nat.add_zero]
    exact Leaves.on once isJob rfl same (.inl rfl) (fun mine => absurd mine isMine)
      (fun mine => absurd mine isMine) nofun

theorem Leaves.answers {call scope : Str} (once : Once key state)
    (isJob : state.jobs job = some press) (isMarked : press.stage = .keyMarked call)
    (isMine : press.mine = some key) :
    Leaves key job press state
      ((state.mark (.key key) (.done call scope)).setPress job
        { press with stage := .releasing }) where
  count := once.count
  made := .inl rfl
  clear after isAfter _ clears := by
    rw [State.setPress_job, some_inj] at isAfter
    subst isAfter
    cases clears
  done _ := by
    refine .inl ⟨call, scope, state.now, Function.update_self .., ?_⟩
    exact once.called job press call isJob isMine (congrArg Stage.answered isMarked)
  called after one isAfter _ answered := by
    rw [State.setPress_job, some_inj] at isAfter
    subst isAfter
    cases answered
  young after now file isAfter isStage := by
    rw [State.setPress_job, some_inj] at isAfter
    subst isAfter
    cases isStage

theorem pressStep_leaves (once : Once key state) (isJob : state.jobs job = some press)
    (keeps : Kept key state (.goesOn job turn)) :
    Leaves key job press state (pressStep state job press turn) := by
  have kept := keeps press isJob
  clear keeps
  have clear := once.clear job press isJob
  have young := fun now file => once.young job press now file isJob
  have unmade := once.unmade isJob
  have stays := Leaves.stays once isJob
  have makes := fun call => @Leaves.makes _ _ _ _ call once isJob
  have answers := fun call scope => @Leaves.answers _ _ _ _ call scope once isJob
  have on {next : State} {after : Press} (sameMine : after.mine = press.mine)
      (made : next.made.count key = state.made.count key)
      (marker : next.marker (.key key) = state.marker (.key key) ∨ state.made.count key = 0)
      (clear : press.mine = some key → after.stage.clears = true → state.made.count key = 0)
      (answered : press.mine = some key → after.stage.answered = press.stage.answered)
      (young : ∀ now file, after.stage ≠ .unlinking now file) :=
    Leaves.on once isJob sameMine made marker clear answered young
  -- A step that neither makes nor marks, to a stage that does neither.
  have plain {next : State} {after : Press} (sameMine : after.mine = press.mine)
      (made : next.made = state.made) (marker : next.marker (.key key) = state.marker (.key key))
      (clears : after.stage.clears = false) (answered : after.stage.answered = none)
      (young : ∀ now file, after.stage ≠ .unlinking now file)
      (before : press.mine = some key → press.stage.answered = none) :
      Leaves key job press state (next.setPress job after) := by
    refine on sameMine (congrArg _ made) (.inl marker) (fun _ isClear => ?_)
      (fun isMine => answered.trans (before isMine).symm) young
    cases clears.symm.trans isClear
  obtain ⟨process, mine, digest, scope, mineFile, sameFile, stage⟩ := press
  cases stage with
  | keyOpening =>
    cases mine with
    | none => exact stays
    | some mine =>
      simp only [pressStep]
      split
      · exact plain rfl rfl rfl rfl rfl (by simp) fun _ => rfl
      · exact plain rfl openLock_kept.1 (congrFun openLock_kept.2 _) rfl rfl (by simp) fun _ => rfl
  | keyLocking waited =>
    cases mine with
    | none => exact stays
    | some mine =>
      simp only [pressStep]
      split
      · exact plain rfl rfl rfl rfl rfl (by simp) fun _ => rfl
      · split
        · exact plain rfl rfl rfl rfl rfl (by simp) fun _ => rfl
        · exact plain rfl rfl rfl rfl rfl (by simp) fun _ => rfl
  | keyReading =>
    cases mine with
    | none => exact stays
    | some mine =>
      simp only [pressStep]
      split
      · rename_i call scope' time isMarker
        split
        · rename_i isNil
          refine on rfl rfl (.inl rfl) (fun isMine _ => unmade isMine rfl rfl ?_)
            (fun _ => rfl) (by simp)
          rintro ⟨other, scope'', time', isDone, notNil⟩
          cases isMine
          cases isMarker.symm.trans isDone
          exact notNil isNil
        · split
          · exact plain rfl rfl rfl rfl rfl (by simp) fun _ => rfl
          · exact plain rfl rfl rfl rfl rfl (by simp) fun _ => rfl
      · rename_i notDone
        refine on rfl rfl (.inl rfl) (fun isMine _ => unmade isMine rfl rfl ?_)
          (fun _ => rfl) (by simp)
        rintro ⟨other, scope', time, isDone, notNil⟩
        cases isMine
        exact notDone other scope' time isDone
  | keyJoining call =>
    simp only [pressStep]
    split
    · rename_i isFails
      refine on rfl rfl (.inl rfl) (fun isMine _ => ?_) (fun _ => rfl) (by simp)
      subst isFails
      cases kept isMine
    · exact plain rfl rfl rfl rfl rfl (by simp) fun _ => rfl
  | reqOpening =>
    simp only [pressStep]
    split
    · exact plain rfl rfl rfl left_plain.1 left_plain.2.1 left_plain.2.2 fun _ => rfl
    · exact on rfl (congrArg _ openLock_kept.1) (.inl (congrFun openLock_kept.2 _))
        (fun isMine _ => clear isMine rfl) (fun _ => rfl) (by simp)
  | reqLocking waited =>
    simp only [pressStep]
    split
    · refine on rfl rfl (.inl rfl) (fun isMine _ => clear isMine rfl) (fun _ => ?_) ?_
      · cases waited <;> rfl
      · cases waited <;> simp
    · split
      · exact plain rfl rfl rfl left_plain.1 left_plain.2.1 left_plain.2.2 fun _ => rfl
      · exact on rfl rfl (.inl rfl) (fun isMine _ => clear isMine rfl) (fun _ => rfl) (by simp)
  | reqReading | reqJoining call =>
    simp only [pressStep]
    split
    · exact on rfl rfl (.inl rfl) (fun isMine _ => clear isMine rfl) (fun _ => rfl) (by simp)
    · exact on rfl rfl (.inl rfl) (fun isMine _ => clear isMine rfl) (fun _ => rfl) (by simp)
  | keyJoined call =>
    cases mine with
    | none => exact plain rfl rfl rfl rfl rfl (by simp) fun _ => rfl
    | some mine =>
      simp only [pressStep]
      split
      · exact plain rfl rfl rfl rfl rfl (by simp) fun _ => rfl
      · refine on rfl rfl ?_ (by simp [Stage.clears]) (fun _ => rfl) (by simp)
        by_cases isKey : mine = key
        · exact .inr (clear (congrArg some isKey) rfl)
        · exact .inl (mark_other fun same => isKey (Slot.key.inj same))
  | marking =>
    simp only [pressStep]
    split
    · exact plain rfl rfl rfl rfl rfl (by simp) fun _ => rfl
    · exact on rfl rfl (.inl (mark_other (by simp)))
        (fun isMine _ => clear isMine rfl) (fun _ => rfl) (by simp)
  | keyMarking =>
    cases mine with
    | none =>
      exact on rfl rfl (.inl rfl) (fun isMine _ => clear isMine rfl) (fun _ => rfl) (by simp)
    | some mine =>
      simp only [pressStep]
      split
      · exact plain rfl rfl rfl rfl rfl (by simp) fun _ => rfl
      · refine on rfl rfl ?_ (fun isMine _ => clear isMine rfl) (fun _ => rfl) (by simp)
        by_cases isKey : mine = key
        · exact .inr (clear (congrArg some isKey) rfl)
        · exact .inl (mark_other fun same => isKey (Slot.key.inj same))
  | making =>
    simp only [pressStep]
    split
    · rename_i call
      refine makes call rfl fun isMine isNil => ?_
      subst isNil
      cases kept isMine
    · exact plain rfl rfl rfl rfl rfl (by simp) fun _ => rfl
    · exact stays
  | marked call =>
    simp only [pressStep]
    split
    · rename_i isFails
      subst isFails
      exact on rfl rfl (.inl rfl) (by simp [Stage.clears])
        (fun isMine => by cases kept isMine) (by simp)
    · exact on rfl rfl (.inl (mark_other (by simp)))
        (by simp [Stage.clears]) (fun _ => rfl) (by simp)
  | keyMarked call =>
    cases mine with
    | none =>
      exact plain rfl rfl rfl rfl rfl (by simp) (by simp)
    | some mine =>
      simp only [pressStep]
      split
      · rename_i isFails
        subst isFails
        exact on rfl rfl (.inl rfl) (by simp [Stage.clears])
          (fun isMine => by cases kept isMine) (by simp)
      · by_cases isKey : mine = key
        · subst isKey
          exact answers call scope rfl rfl
        · exact plain rfl rfl (mark_other fun same => isKey (Slot.key.inj same)) rfl rfl
            (by simp) fun isMine => absurd (some_inj.mp isMine) isKey
  | releasing =>
    exact plain rfl rfl rfl left_plain.1 left_plain.2.1 left_plain.2.2 fun _ => rfl
  | keyReleasing =>
    cases mine with
    | none => exact stays
    | some mine =>
      exact plain rfl rfl rfl rfl rfl (by simp) fun _ => rfl
  | pruning now =>
    refine ⟨once.count, .inl rfl, fun after isAfter => ?_, fun isMade => ?_,
      fun after _ isAfter => ?_, fun after _ _ isAfter => ?_⟩
    · cases State.ends_job.symm.trans isAfter
    · rcases stays.done isMade with answered | ⟨after, isAfter, _, isAnswered⟩ | others
      · exact .inl answered
      · cases isJob.symm.trans isAfter
        cases isAnswered
      · exact .inr (.inr others)
    · cases State.ends_job.symm.trans isAfter
    · cases State.ends_job.symm.trans isAfter
  | unlinking now file =>
    have unlinked := @unlink_kept state _ _ (young now file rfl).2
    exact plain rfl unlinked.1 unlinked.2 rfl rfl (by simp) fun _ => rfl

theorem checkStep_leaves {file : File} (once : Once key state)
    (isJob : state.jobs job = some press) (kept : Kept key state (.checks job file)) :
    Leaves key job press state (checkStep state job press file) := by
  unfold checkStep
  split
  · rename_i now isPruning
    split
    · rename_i isOld
      obtain ⟨time, isTime, older⟩ := (any_eq_true _ _).mp isOld
      have older := of_decide_eq_true older
      have isYoung : file ≠ .lock (.key key) ∧ file ≠ .marker (.key key) := by
        rw [← not_or]
        intro isKey
        have isNow : press.stage.pruned = some now := by rw [isPruning]; rfl
        exact absurd (kept isKey press isJob now isNow time isTime) (not_le.mpr older)
      have stays := Leaves.stays once isJob
      constructor
      · exact once.count
      · exact .inl rfl
      · intro after isAfter _ clears
        rw [State.setPress_job, some_inj] at isAfter
        subst isAfter
        cases clears
      · intro isMade
        rcases stays.done isMade with answered | ⟨after, isAfter, _, isAnswered⟩ | others
        · exact .inl answered
        · cases isJob.symm.trans isAfter
          rw [isPruning] at isAnswered
          cases isAnswered
        · exact .inr (.inr others)
      · intro after call isAfter _ answered
        rw [State.setPress_job, some_inj] at isAfter
        subst isAfter
        cases answered
      · intro after when one isAfter isStage
        rw [State.setPress_job, some_inj] at isAfter
        subst isAfter
        cases isStage
        exact isYoung
    · exact Leaves.stays once isJob
  · exact Leaves.stays once isJob

theorem Once.spares {event : Event} (once : Once key state) : Spares (.key key) state event := by
  cases event with
  | goesOn job turn =>
    intro isRemoved
    obtain ⟨press, isJob, isRemoved⟩ := bind_eq_some_iff.mp isRemoved
    unfold Press.removes at isRemoved
    split at isRemoved
    · rename_i now slot isStage
      cases isRemoved
      exact absurd rfl (once.young job press now _ isJob isStage).1
    · cases isRemoved
  | _ => trivial

theorem step_once (state : State) (event : Event) (once : Once key state)
    (kept : Kept key state event) : Once key (step state event) := by
  have locked := step_locked state event once.locked
  have linked := @step_linked _ _ event once.locked once.linked once.spares
  cases event with
  | once process mine digest scope =>
    have old {job : Nat} {press : Press}
        (isPress : (step state (.once process mine digest scope)).jobs job = some press)
        (isPast : press.stage.mineHeld = true) (isMine : press.mine = some key) :
        state.jobs job = some press := by
      by_cases isNew : job = state.next
      · subst isNew
        obtain ⟨sameMine, stage, -⟩ := begin_press isPress
        rcases stage with isStage | ⟨isStage, isNone⟩
        · rw [isStage] at isPast
          cases isPast
        · cases (isNone.symm.trans sameMine.symm).trans isMine
      · rw [begin_near.jobs job isNew] at isPress
        exact isPress
    refine ⟨locked, linked, once.count, fun job press isPress isMine clears => ?_,
      fun isMade => ?_, fun job press call isPress isMine answered => ?_,
      fun job press now file isPress isStage => ?_⟩
    · exact once.clear job press (old isPress (clears_held clears) isMine) isMine clears
    · refine (once.done isMade).imp_right ?_
      rintro ⟨job, press, isJob, rest⟩
      have isOther : job ≠ state.next := by
        rintro rfl
        cases (once.locked.fresh _ le_rfl).symm.trans isJob
      exact ⟨job, press, (begin_near.jobs job isOther).trans isJob, rest⟩
    · have held := answered_held (isSome_of_eq_some answered)
      exact once.called job press call (old isPress held isMine) isMine answered
    · by_cases isNew : job = state.next
      · subst isNew
        rcases (begin_press isPress).2.1 with isFirst | ⟨isFirst, -⟩
        · cases isFirst.symm.trans isStage
        · cases isFirst.symm.trans isStage
      · rw [begin_near.jobs job isNew] at isPress
        exact once.young job press now file isPress isStage
  | goesOn job turn =>
    cases isJob : state.jobs job with
    | none =>
      simp only [step, isJob]
      exact once
    | some press =>
      have moves := @goesOn_moves _ _ _ turn once.locked isJob
      refine once.changes isJob moves.near ?_ locked linked
      simp only [step, isJob]
      exact pressStep_leaves once isJob kept
  | checks job file =>
    cases isJob : state.jobs job with
    | none =>
      simp only [step, isJob]
      exact once
    | some press =>
      have moves := @checkStep_moves _ _ _ file isJob (once.locked.owns job press isJob)
      have isStep : step state (.checks job file) = checkStep state job press file := by
        simp only [step, isJob]
      rw [isStep] at locked linked ⊢
      exact once.changes isJob moves.near (checkStep_leaves once isJob kept) locked linked
  | clock now => exact { once with locked := locked, linked := linked }
  | dies process =>
    refine ⟨locked, linked, once.count, fun job press isPress => ?_, fun isMade => ?_,
      fun job press call isPress => ?_, fun job press now file isPress => ?_⟩
    · exact once.clear job press (die_some isPress).1
    · refine (once.done isMade).imp_right ?_
      rintro ⟨job, press, isJob, isMine, answered⟩
      have isOld : job < state.next := by
        by_contra isLater
        cases (once.locked.fresh job (Nat.le_of_not_lt isLater)).symm.trans isJob
      have stays : press.process ≠ process := by
        intro same
        rw [kept job isOld press isJob same isMine] at answered
        cases answered
      exact ⟨job, press, filter_eq_some_iff.mpr ⟨isJob, decide_eq_true stays⟩, isMine,
        answered⟩
    · exact once.called job press call (die_some isPress).1
    · exact once.young job press now file (die_some isPress).1

/-! ### The runs -/

/-- One press at a time makes for a request. -/
def OneMaking (digest : Str) (state : State) : Prop :=
  ∀ one other press two, state.jobs one = some press → state.jobs other = some two →
    press.stage = .making → two.stage = .making → press.digest = digest → two.digest = digest →
      one = other

theorem oneMaking {digest : Str} (locked : Locked state) (linked : Linked (.req digest) state) :
    OneMaking digest state := by
  intro one other press two isOne isOther oneMakes otherMakes oneAsks otherAsks
  have holds {press : Press} (makes : press.stage = .making) (asks : press.digest = digest) :
      press.holds (.req digest) = true := by
    refine decide_eq_true ⟨asks, ?_⟩
    rw [makes]
    rfl
  exact locked.unique linked isOne isOther (holds oneMakes oneAsks) (holds otherMakes otherAsks)

section Begins

variable (now : Clock) (link : Slot → Option Nat) (created : Nat → Clock)
  (marker : Slot → Option (Marker × Clock)) (inodes : Nat)

theorem begin_locked : Locked (begin_ now link created marker inodes) where
  owns _ _ isJob := by cases isJob
  fresh _ _ := rfl

theorem begin_linked : Linked slot (begin_ now link created marker inodes) := by
  intro job press isJob
  cases isJob

theorem begin_once : Once key (begin_ now link created marker inodes) where
  locked := begin_locked now link created marker inodes
  linked := begin_linked now link created marker inodes
  count := Nat.zero_le _
  clear _ _ isJob := by cases isJob
  done isMade := by cases isMade
  called _ _ _ isJob := by cases isJob
  young _ _ _ _ isJob := by cases isJob

/-- **One press, one request.** In every run of presses, processes that end and
prunes: one `make` at a time for a request whose lock file is not removed under a
press, and one completed for a key whose files and answers are kept. -/
theorem one_request (events : List Event) :
    let start := begin_ now link created marker inodes
    (∀ digest, Along step (Spares (.req digest)) start events →
      OneMaking digest (run step start events)) ∧
    ∀ key, Along step (Kept key) start events → (run step start events).made.count key ≤ 1 := by
  intro start
  refine ⟨fun digest spares => ?_, fun key kept => ?_⟩
  · have both : Locked _ ∧ Linked (.req digest) _ := @Along.keeps _ _ _ _
      (fun state => Locked state ∧ Linked (.req digest) state) _ _
      (fun state event both spares =>
        ⟨step_locked state event both.1, step_linked both.1 both.2 spares⟩) spares
      ⟨begin_locked now link created marker inodes, begin_linked now link created marker inodes⟩
    exact oneMaking both.1 both.2
  · exact (kept.keeps step_once (begin_once now link created marker inodes)).count

end Begins

instance (key : Key) : ∀ state event, Decidable (Kept key state event)
  | state, .checks job file => inferInstanceAs (Decidable
      (file = .lock (.key key) ∨ file = .marker (.key key) → ∀ press ∈ state.jobs job,
        ∀ now ∈ press.stage.pruned, ∀ time ∈ state.time file, now - time ≤ keepS))
  | state, .goesOn job turn => inferInstanceAs (Decidable
      (∀ press ∈ state.jobs job, press.mine = some key → press.loses turn = false))
  | state, .dies process => inferInstanceAs (Decidable
      (∀ job < state.next, ∀ press ∈ state.jobs job, press.process = process →
        press.mine = some key → press.stage.answered = none))
  | _, .once _ _ _ _ | _, .clock _ => isTrue trivial

instance (slot : Slot) : ∀ state event, Decidable (Spares slot state event)
  | state, .goesOn job _ => inferInstanceAs (Decidable
      ((state.jobs job).bind Press.removes = some slot →
        ∀ other < state.next, ∀ press ∈ state.jobs other, press.opens slot = false))
  | _, .once _ _ _ _ | _, .checks _ _ | _, .clock _ | _, .dies _ => isTrue trivial

/-- Ann's first call under a key, and two requests. -/
def pressed : Key := ⟨"ann".ascii, "0123456789abcdef".ascii, 1⟩

def asked : Str := "4e07".ascii

def askedElse : Str := "6b86".ascii

/-- A press taken on by so many steps. -/
def goes (job steps : Nat) : List Event := List.replicate steps (.goesOn job .succeeds)

def empty : State := begin_ 0 (fun _ => none) (fun _ => 0) (fun _ => none) 0

/-- A press, and its key sent again: the second is handed the first's call. -/
def sentAgain : List Event :=
  [.once 1 (some pressed) asked []] ++ goes 0 7 ++ [.goesOn 0 (.makes "c1".ascii)] ++ goes 0 5 ++
    [.once 2 (some pressed) asked []] ++ goes 1 5 ++ [.checks 1 (.lock (.key pressed))] ++ goes 1 1

theorem sent_again_made_once :
    OneMaking asked (run step empty sentAgain) ∧
      (run step empty sentAgain).made.count pressed ≤ 1 :=
  ⟨(one_request 0 (fun _ => none) (fun _ => 0) (fun _ => none) 0 sentAgain).1 asked
      (by decide +kernel),
    (one_request 0 (fun _ => none) (fun _ => 0) (fun _ => none) 0 sentAgain).2 pressed
      (by decide +kernel)⟩

/-- A join that cannot read its call's row. -/
def Press.unread (press : Press) (turn : Turn) : Bool :=
  match press.stage, turn with
  | .keyJoining _, .fails => true
  | _, _ => false

/-- The key's files are younger than `KEEP_S`, and a join reads its call's row. -/
def Fresh (key : Key) (state : State) (event : Event) : Prop :=
  (∀ file ∈ [File.lock (.key key), .marker (.key key)], ∀ time ∈ state.time file,
    state.now - time ≤ keepS) ∧
  match event with
  | .goesOn job turn => ∀ press ∈ state.jobs job, press.mine = some key →
      press.unread turn = false
  | _ => True

instance (key : Key) (state : State) : ∀ event, Decidable (Fresh key state event)
  | .goesOn job turn => inferInstanceAs (Decidable
      ((∀ file ∈ [File.lock (.key key), .marker (.key key)], ∀ time ∈ state.time file,
        state.now - time ≤ keepS) ∧
        ∀ press ∈ state.jobs job, press.mine = some key → press.unread turn = false))
  | .once _ _ _ _ | .checks _ _ | .clock _ | .dies _ => inferInstanceAs (Decidable
      ((∀ file ∈ [File.lock (.key key), .marker (.key key)], ∀ time ∈ state.time file,
        state.now - time ≤ keepS) ∧ True))

def endsUnmarked : List Event :=
  [.once 1 (some pressed) asked []] ++ goes 0 7 ++ [.goesOn 0 (.makes "c1".ascii), .dies 1] ++
    [.once 2 (some pressed) asked []] ++ goes 1 7 ++ [.goesOn 1 (.makes "c2".ascii)] ++ goes 1 5

def prunedHeld : List Event :=
  [.clock 90000, .once 1 none asked []] ++ goes 0 4 ++ [.once 2 none askedElse []] ++ goes 1 4 ++
    [.goesOn 1 (.makes "c1".ascii)] ++ goes 1 3 ++ [.checks 1 (.lock (.req asked))] ++
    goes 1 2 ++ [.once 3 none asked []] ++ goes 2 4

theorem not_one_request :
    (¬ ∀ now link created marker inodes events digest,
      OneMaking digest (run step (begin_ now link created marker inodes) events)) ∧
    ¬ ∀ now link created marker inodes events key,
      Along step (Fresh key) (begin_ now link created marker inodes) events →
        (run step (begin_ now link created marker inodes) events).made.count key ≤ 1 := by
  constructor
  · intro claimed
    let link := Function.update (fun _ => none) (Slot.req asked) (some 0)
    have isSame := claimed 0 link (fun _ => 0) (fun _ => none) 1 prunedHeld asked 0 2
      ⟨1, none, asked, [], 0, 0, .making⟩ ⟨3, none, asked, [], 0, 2, .making⟩
      (by decide +kernel) (by decide +kernel) rfl rfl rfl rfl
    cases isSame
  · intro claimed
    have most := claimed 0 (fun _ => none) (fun _ => 0) (fun _ => none) 0 endsUnmarked pressed
      (by decide +kernel)
    exact absurd most (by decide +kernel)

end Nmas.Ai.Presses
