import Nmas.Holds.Marked

/-!
Contract: what a step changes, and whose doing each change is.

Owns:
- the steps that write a lock file, and what a process has locked against others';
- where a hold, a release and a marker come from;
- what a process is doing in `_mu` from one step to the next.
-/

namespace Nmas.Holds

open Nmas.Text List
open Nmas.Log (amend)
open Nmas.Os (Flock)
open Function

variable {state next : State} {pid : Nat} {process : Process} {key : Key} {hold : Hold}
  {path : Path} {acquiring : Acquiring}

/-! ### Who writes a lock file -/

inductive Writes (state : State) (path : Path) : Event → Prop where
  | acquires (pid : Nat) (fails : Bool) (acquiring : Acquiring)
      (isCritical : (state.processes pid).critical = some (.acquiring acquiring))
      (isPath : acquiring.key.path = path)
      (isStage : acquiring.stage = .emptying ∨ acquiring.stage = .writing) :
      Writes state path (.goesOn pid fails)
  | notes (pid : Nat) (fails : Bool) (key : Key) (isNoted : key ∈ (state.processes pid).notes)
      (isPath : key.path = path) : Writes state path (.goesOn pid fails)
  | leaves (pid place : Nat) (fails : Bool) (leaving : Leaving)
      (isThere : (state.processes pid).leaving[place]? = some leaving)
      (isPath : leaving.key.path = path) (isStage : leaving.stage = .emptying) :
      Writes state path (.leaves pid place fails)

theorem contents_of_ne {other : Path} {content : Option Info} (isOther : other ≠ path) :
    (state.setContent other content).contents path = state.contents path := by
  rw [contents_setContent, if_neg (Ne.symm isOther)]

theorem contents_index (state : State) (index : Index) :
    (index.step state).1.contents = state.contents := by
  unfold Index.step
  split <;> rfl

theorem contents_acquireStep {fails : Bool} (path : Path)
    (isCritical : (state.processes pid).critical = some (.acquiring acquiring)) :
    (acquireStep state pid acquiring fails).contents path = state.contents path ∨
      Writes state path (.goesOn pid fails) := by
  have elsewhere {content : Option Info}
      (isStage : acquiring.stage = .emptying ∨ acquiring.stage = .writing) :
      (state.setContent acquiring.key.path content).contents path = state.contents path ∨
        Writes state path (.goesOn pid fails) := by
    by_cases isPath : acquiring.key.path = path
    · exact .inr (.acquires pid fails acquiring isCritical isPath isStage)
    · exact .inl (contents_of_ne isPath)
  rcases acquireStep_cases state pid acquiring fails with
    ⟨next, stage, turns, isStep⟩ | ⟨-, -, isStep⟩
  · have settled : (acquireStep state pid acquiring fails).contents = next.contents := by
      rw [isStep]
      cases stage <;> rfl
    rw [settled]
    cases turns with
    | empties isStage => exact elsewhere (.inl isStage)
    | writes isStage => exact elsewhere (.inr isStage)
    | indexes index _ => exact .inl (congrFun (contents_index state index) path)
    | _ => exact .inl rfl
  · rw [isStep]
    exact .inl rfl

theorem contents_noteStep {noting : Noting} {fails : Bool} (path : Path)
    (isCritical : (state.processes pid).critical = some (.noting noting)) :
    (noteStep state pid noting fails).contents path = state.contents path ∨
      Writes state path (.goesOn pid fails) := by
  have isNotes : (state.processes pid).notes = noting.writing.toList ++ noting.rest := by
    unfold Process.notes
    rw [isCritical]
  have elsewhere {key : Key} {content : Option Info} (isNoted : key ∈ noting.writing.toList ++
      noting.rest) : (state.setContent key.path content).contents path = state.contents path ∨
        Writes state path (.goesOn pid fails) := by
    by_cases isPath : key.path = path
    · exact .inr (.notes pid fails key (by rw [isNotes]; exact isNoted) isPath)
    · exact .inl (contents_of_ne isPath)
  obtain ⟨next, held, further, notes, isStep⟩ := noteStep_cases state pid noting fails
  rw [isStep]
  cases notes with
  | writes key hold isWriting _ => exact elsewhere (by simp [isWriting])
  | empties key rest _ isRest => exact elsewhere (by simp [isRest])
  | _ => exact .inl rfl

theorem contents_leaveStep {place : Nat} {leaving : Leaving} {fails : Bool} (path : Path)
    (isThere : (state.processes pid).leaving[place]? = some leaving) :
    (leaveStep state pid place leaving fails).contents path = state.contents path ∨
      Writes state path (.leaves pid place fails) := by
  obtain ⟨next, stage, leaves, isStep⟩ := leaveStep_cases state pid place leaving fails
  rw [isStep]
  cases leaves with
  | empties isStage =>
    by_cases isPath : leaving.key.path = path
    · exact .inr (.leaves pid place _ leaving isThere isPath isStage)
    · exact .inl (contents_of_ne isPath)
  | _ => exact .inl rfl

theorem contents_step (state : State) (event : Event) (path : Path) :
    (step state event).contents path = state.contents path ∨ Writes state path event := by
  have outcome := outcome_step state event
  generalize step state event = next at outcome ⊢
  cases outcome with
  | acquires pid fails acquiring isCritical => exact contents_acquireStep path isCritical
  | notes pid fails noting isCritical => exact contents_noteStep path isCritical
  | leaves pid place fails leaving isThere => exact contents_leaveStep path isThere
  | indexes _ index => exact .inl (congrFun (contents_index state index) path)
  | _ => exact .inl rfl

theorem writes_held {event : Event} (owned : Owned state) (kept : Marked state)
    (isHeld : hold ∈ (state.processes pid).held) (writes : Writes state hold.key.path event) :
    (∃ fails, event = .goesOn pid fails) ∧ hold.key ∈ (state.processes pid).notes := by
  have tidy := owned.tidy pid
  have isClaim := mem_claims_held isHeld
  cases writes with
  | acquires other fails acquiring isCritical isPath isStage =>
    exfalso
    have locked : acquiring.stage.locked := by
      rcases isStage with isStage | isStage <;> rw [isStage] <;> rfl
    obtain ⟨rfl, sameFd⟩ :=
      claim_unique owned isClaim (mem_claims_acquiring isCritical locked) isPath.symm
    exact held_not_acquiring tidy isHeld (acquiring?_some isCritical) sameFd
  | notes other fails key isNoted isPath =>
    obtain ⟨noted, isNotedHeld, isKey⟩ := mem_map.mp ((kept.fits other).noted key isNoted)
    have samePath : hold.claim.path = noted.claim.path := by
      show hold.key.path = noted.key.path
      rw [isKey]
      exact isPath.symm
    obtain ⟨rfl, sameFd⟩ := claim_unique owned isClaim (mem_claims_held isNotedHeld) samePath
    have fds : ((state.processes pid).held.map Hold.fd).Nodup :=
      (nodup_append.mp (nodup_append.mp tidy.distinct).1).1
    have same : hold = noted := inj_on_of_nodup_map fds isHeld isNotedHeld sameFd
    rw [same, isKey]
    exact ⟨⟨fails, rfl⟩, isNoted⟩
  | leaves other place fails leaving isThere isPath isStage =>
    exfalso
    have isLeaving := mem_of_getElem? isThere
    have isOwn := mem_claims_leaving isLeaving (by rw [isStage]; rfl)
    obtain ⟨rfl, sameFd⟩ := claim_unique owned isClaim isOwn isPath.symm
    exact held_not_leaving tidy isHeld isLeaving sameFd

theorem writes_acquiring {event : Event} (owned : Owned state) (kept : Marked state)
    (isCritical : (state.processes pid).critical = some (.acquiring acquiring))
    (locked : acquiring.stage.locked)
    (writes : Writes state acquiring.key.path event) : ∃ fails, event = .goesOn pid fails := by
  have tidy := owned.tidy pid
  have isClaim := mem_claims_acquiring isCritical locked
  have isAcquiring := acquiring?_some isCritical
  cases writes with
  | acquires other fails acquiring isOther isPath isStage =>
    have alsoLocked : acquiring.stage.locked := by
      rcases isStage with isStage | isStage <;> rw [isStage] <;> rfl
    obtain ⟨rfl, -⟩ :=
      claim_unique owned isClaim (mem_claims_acquiring isOther alsoLocked) isPath.symm
    exact ⟨fails, rfl⟩
  | notes other fails key isNoted isPath =>
    exfalso
    obtain ⟨noted, isNotedHeld, isKey⟩ := mem_map.mp ((kept.fits other).noted key isNoted)
    have samePath : acquiring.claim.path = noted.claim.path := by
      show acquiring.key.path = noted.key.path
      rw [isKey]
      exact isPath.symm
    obtain ⟨rfl, sameFd⟩ := claim_unique owned isClaim (mem_claims_held isNotedHeld) samePath
    exact held_not_acquiring tidy isNotedHeld isAcquiring sameFd.symm
  | leaves other place fails leaving isThere isPath isStage =>
    exfalso
    have isLeaving := mem_of_getElem? isThere
    have isOwn := mem_claims_leaving isLeaving (by rw [isStage]; rfl)
    obtain ⟨rfl, sameFd⟩ := claim_unique owned isClaim isOwn isPath.symm
    exact leaving_not_acquiring tidy isLeaving isAcquiring sameFd.symm

/-! ### Where a hold comes from -/

/-- Two records of one operation. -/
def Info.same (one other : Info) : Prop := one.device = other.device ∧ one.started = other.started

instance (one other : Info) : Decidable (one.same other) := inferInstanceAs (Decidable (_ ∧ _))

theorem Info.noted_same (info : Info) (step_ : Str) (now : Heal.Clock) :
    info.same (info.noted step_ now) := ⟨rfl, rfl⟩

theorem Info.same_trans {one other third : Info} (first : one.same other)
    (second : other.same third) : one.same third :=
  ⟨first.1.trans second.1, first.2.trans second.2⟩

/-- A process's holds are those it had, or the one its `acquire` ends with. -/
def HeldFrom (state : State) (pid : Nat) (event : Event) (hold : Hold) : Prop :=
  (∃ old ∈ (state.processes pid).held, old.key = hold.key ∧ old.info.same hold.info) ∨
  (∃ acquiring, (state.processes pid).critical = some (.acquiring acquiring) ∧
    acquiring.stage = .syncing ∧ event = .goesOn pid false ∧ hold.key = acquiring.key ∧
    hold.info = acquiring.info)

theorem held_update {event : Event} {other : Nat}
    (isNext : next.processes = update state.processes other process)
    (member : hold ∈ (next.processes pid).held)
    (comes : ∀ hold ∈ process.held, HeldFrom state other event hold) :
    HeldFrom state pid event hold := by
  rw [isNext] at member
  by_cases isPid : pid = other
  · subst isPid
    rw [update_self] at member
    exact comes hold member
  · rw [update_of_ne isPid] at member
    exact .inl ⟨hold, member, rfl, rfl, rfl⟩

theorem held_before {event : Event} (member : hold ∈ (state.processes pid).held) :
    HeldFrom state pid event hold := .inl ⟨hold, member, rfl, rfl, rfl⟩

theorem held_amend {event : Event} {change : Hold → Hold}
    (keeps : ∀ hold, (change hold).key = hold.key ∧ hold.info.same (change hold).info)
    (member : hold ∈ amend Hold.key key change (state.processes pid).held) :
    HeldFrom state pid event hold := by
  obtain ⟨old, isOld, rfl | rfl⟩ := Log.mem_amend member
  · exact held_before isOld
  · exact .inl ⟨old, isOld, (keeps old).1.symm, (keeps old).2⟩

theorem held_same {event : Event} {other : Nat} {critical : Option Critical}
    {leaving : List Leaving} {opened : Nat}
    (isNext : next.processes = update state.processes other
      ⟨(state.processes other).held, critical, leaving, opened⟩)
    (member : hold ∈ (next.processes pid).held) : HeldFrom state pid event hold :=
  held_update isNext member (fun _ isHeld => held_before isHeld)

theorem held_acquireStep {other : Nat} {fails : Bool}
    (isCritical : (state.processes other).critical = some (.acquiring acquiring))
    (member : hold ∈ ((acquireStep state other acquiring fails).processes pid).held) :
    HeldFrom state pid (.goesOn other fails) hold := by
  rcases acquireStep_cases state other acquiring fails with
    ⟨next, stage, turns, isStep⟩ | ⟨isFalse, isStage, isStep⟩
  · rw [isStep] at member
    exact held_same (settle_processes turns) member
  · rw [isStep] at member
    refine held_update rfl member ?_
    intro hold isHeld
    rcases mem_append.mp isHeld with before | isNew
    · exact held_before before
    · rw [mem_singleton.mp isNew, isFalse]
      exact .inr ⟨acquiring, isCritical, isStage, rfl, rfl, rfl⟩

theorem held_noteStep {other : Nat} {noting : Noting} {fails : Bool} {event : Event}
    (member : hold ∈ ((noteStep state other noting fails).processes pid).held) :
    HeldFrom state pid event hold := by
  obtain ⟨next, held, further, notes, isStep⟩ := noteStep_cases state other noting fails
  rw [isStep] at member
  cases notes with
  | empties key rest _ _ | fails key rest _ _ =>
    refine held_update rfl member (fun hold isHeld => held_amend ?_ isHeld)
    exact fun _ => ⟨rfl, Info.noted_same _ _ _⟩
  | _ => exact held_same rfl member

theorem held_step {event : Event} (member : hold ∈ ((step state event).processes pid).held) :
    HeldFrom state pid event hold := by
  have outcome := outcome_step state event
  generalize step state event = next at outcome member
  cases outcome with
  | amends _ other key change _ keeps =>
    refine held_update rfl member (fun hold isHeld => held_amend (fun hold => ?_) isHeld)
    refine ⟨(keeps hold).1, ?_⟩
    rw [(keeps hold).2.2]
    exact ⟨rfl, rfl⟩
  | opens | begins => exact held_same rfl member
  | acquires other fails acquiring isCritical => exact held_acquireStep isCritical member
  | notes other fails noting _ => exact held_noteStep member
  | pops other thread key _ _ _ =>
    refine held_update rfl member (fun hold isHeld => held_before ?_)
    exact (mem_filter.mp isHeld).1
  | leaves other place fails leaving _ =>
    obtain ⟨next, stage, leaves, isStep⟩ := leaveStep_cases state other place leaving fails
    rw [isStep] at member
    exact held_same (setProcess_processes leaves.processes) member
  | indexes _ index =>
    have isHeld : hold ∈ ((index.step state).1.processes pid).held := member
    rw [(index_frame state index).1] at isHeld
    exact held_before isHeld
  | dies other =>
    refine held_update rfl member ?_
    intro hold isHeld
    cases isHeld
  | _ => exact held_before member

/-! ### What is in `_mu` -/

/-- What a call begins with in `_mu`. -/
def Fresh : Option Critical → Prop
  | some (.acquiring acquiring) => acquiring.stage = .locking 0
  | some (.noting noting) => noting.writing = none
  | none => False

/-- What a process is doing in `_mu` is what it was doing, or has just begun. -/
def StaysIn (state next : State) (pid : Nat) : Prop :=
  (next.processes pid).critical = (state.processes pid).critical ∨
    ((state.processes pid).critical = none ∧ Fresh (next.processes pid).critical)

theorem stays_in {other : Nat}
    (isNext : next.processes = update state.processes other process)
    (stays : process.critical = (state.processes other).critical ∨
      ((state.processes other).critical = none ∧ Fresh process.critical)) :
    StaysIn state next pid := by
  unfold StaysIn
  rw [isNext]
  by_cases isPid : pid = other
  · subst isPid
    rw [update_self]
    exact stays
  · rw [update_of_ne isPid]
    exact .inl rfl

theorem stays_in_same (sameProcesses : next.processes = state.processes) :
    StaysIn state next pid := by
  unfold StaysIn
  rw [sameProcesses]
  exact .inl rfl

theorem stays_of_ne {other : Nat} (isOther : other ≠ pid)
    (isNext : next.processes = update state.processes other process) :
    StaysIn state next pid := by
  unfold StaysIn
  rw [isNext, update_of_ne (Ne.symm isOther)]
  exact .inl rfl

theorem acquireStep_processes (state : State) (other : Nat) (acquiring : Acquiring) (fails : Bool) :
    ∃ process, (acquireStep state other acquiring fails).processes =
      update state.processes other process ∧ process.leaving = (state.processes other).leaving := by
  rcases acquireStep_cases state other acquiring fails with
    ⟨next, stage, turns, isStep⟩ | ⟨-, -, isStep⟩
  · rw [isStep]
    exact ⟨_, settle_processes turns, rfl⟩
  · rw [isStep]
    exact ⟨_, rfl, rfl⟩

theorem noteStep_processes (state : State) (other : Nat) (noting : Noting) (fails : Bool) :
    ∃ process, (noteStep state other noting fails).processes =
      update state.processes other process ∧ process.leaving = (state.processes other).leaving := by
  obtain ⟨next, held, further, notes, isStep⟩ := noteStep_cases state other noting fails
  rw [isStep]
  exact ⟨_, setProcess_processes notes.processes, rfl⟩

theorem critical_step (state : State) (event : Event) (pid : Nat) :
    (∃ fails, event = .goesOn pid fails) ∨ event = .dies pid ∨
      StaysIn state (step state event) pid := by
  have outcome := outcome_step state event
  generalize step state event = next at outcome ⊢
  cases outcome with
  | amends | pops => exact .inr (.inr (stays_in rfl (.inl rfl)))
  | opens _ _ _ _ _ idle | begins _ _ _ _ _ idle =>
    exact .inr (.inr (stays_in rfl (.inr ⟨idle, rfl⟩)))
  | acquires other fails acquiring _ =>
    by_cases isPid : other = pid
    · exact .inl ⟨fails, by rw [isPid]⟩
    · obtain ⟨process, isNext, -⟩ := acquireStep_processes state other acquiring fails
      exact .inr (.inr (stays_of_ne isPid isNext))
  | notes other fails noting _ =>
    by_cases isPid : other = pid
    · exact .inl ⟨fails, by rw [isPid]⟩
    · obtain ⟨process, isNext, -⟩ := noteStep_processes state other noting fails
      exact .inr (.inr (stays_of_ne isPid isNext))
  | leaves other place fails leaving _ =>
    obtain ⟨next, stage, leaves, isStep⟩ := leaveStep_cases state other place leaving fails
    rw [isStep]
    exact .inr (.inr (stays_in (setProcess_processes leaves.processes) (.inl rfl)))
  | indexes _ index =>
    exact .inr (.inr (stays_in_same (index_frame state index).1))
  | dies other =>
    by_cases isPid : other = pid
    · exact .inr (.inl (by rw [isPid]))
    · exact .inr (.inr (stays_of_ne isPid rfl))
  | _ => exact .inr (.inr (stays_in_same rfl))

/-! ### Where a release comes from -/

def LeavingFrom (state : State) (pid : Nat) (key : Key) : Prop :=
  (∃ old ∈ (state.processes pid).leaving, old.key = key ∧ old.stage.locked = true) ∨
    ∃ hold ∈ (state.processes pid).held, hold.key = key

variable {leaving : Leaving}

theorem leaving_update {other : Nat}
    (isNext : next.processes = update state.processes other process)
    (member : leaving ∈ (next.processes pid).leaving) (locked : leaving.stage.locked)
    (comes : ∀ leaving ∈ process.leaving, leaving.stage.locked →
      LeavingFrom state other leaving.key) : LeavingFrom state pid leaving.key := by
  rw [isNext] at member
  by_cases isPid : pid = other
  · subst isPid
    rw [update_self] at member
    exact comes leaving member locked
  · rw [update_of_ne isPid] at member
    exact .inl ⟨leaving, member, rfl, locked⟩

theorem leaving_same {other : Nat} (isNext : next.processes = update state.processes other process)
    (sameLeaving : process.leaving = (state.processes other).leaving)
    (member : leaving ∈ (next.processes pid).leaving) (locked : leaving.stage.locked) :
    LeavingFrom state pid leaving.key := by
  refine leaving_update isNext member locked ?_
  intro leaving isLeaving locked
  rw [sameLeaving] at isLeaving
  exact .inl ⟨leaving, isLeaving, rfl, locked⟩

theorem leaving_kept {other : Nat} {held : List Hold} {critical : Option Critical} {opened : Nat}
    (isNext : next.processes = update state.processes other
      ⟨held, critical, (state.processes other).leaving, opened⟩)
    (member : leaving ∈ (next.processes pid).leaving) (locked : leaving.stage.locked) :
    LeavingFrom state pid leaving.key := leaving_same isNext rfl member locked

theorem leaving_before (sameProcesses : next.processes = state.processes)
    (member : leaving ∈ (next.processes pid).leaving) (locked : leaving.stage.locked) :
    LeavingFrom state pid leaving.key := by
  rw [sameProcesses] at member
  exact .inl ⟨leaving, member, rfl, locked⟩

theorem leaving_leaveStep {other place : Nat} {gone : Leaving} {fails : Bool}
    (isThere : (state.processes other).leaving[place]? = some gone)
    (member : leaving ∈ ((leaveStep state other place gone fails).processes pid).leaving)
    (locked : leaving.stage.locked) : LeavingFrom state pid leaving.key := by
  have isGone := mem_of_getElem? isThere
  obtain ⟨next, stage, leaves, isStep⟩ := leaveStep_cases state other place gone fails
  rw [isStep] at member
  refine leaving_update (setProcess_processes leaves.processes) member locked ?_
  intro one isOne isLocked
  have wasLocked (further : LeaveStage) (isFurther : stage = some further)
      (isLocked : further.locked = true) : gone.stage.locked = true := by
    cases leaves with
    | gives _ isStage _ =>
      cases isHere : gone.stage with
      | closing => exact absurd isHere isStage
      | _ => rfl
    | empties isStage | unmarks isStage | unlocks isStage =>
      rw [isStage]
      rfl
    | closes _ _ => cases isFurther
  cases stage with
  | none => exact .inl ⟨one, (eraseIdx_sublist _ _).subset isOne, rfl, isLocked⟩
  | some further =>
    rcases mem_or_eq_of_mem_set isOne with before | rfl
    · exact .inl ⟨one, before, rfl, isLocked⟩
    · exact .inl ⟨gone, isGone, rfl, wasLocked further rfl isLocked⟩

theorem leaving_step {event : Event} (member : leaving ∈ ((step state event).processes pid).leaving)
    (locked : leaving.stage.locked) : LeavingFrom state pid leaving.key := by
  have outcome := outcome_step state event
  generalize step state event = next at outcome member
  cases outcome with
  | amends | opens | begins => exact leaving_kept rfl member locked
  | acquires other fails acquiring _ =>
    obtain ⟨process, isNext, same⟩ := acquireStep_processes state other acquiring fails
    exact leaving_same isNext same member locked
  | notes other fails noting _ =>
    obtain ⟨process, isNext, same⟩ := noteStep_processes state other noting fails
    exact leaving_same isNext same member locked
  | pops other thread key hold _ isFound =>
    refine leaving_update rfl member locked ?_
    intro one isOne isLocked
    rcases mem_append.mp isOne with before | isNew
    · exact .inl ⟨one, before, rfl, isLocked⟩
    · rw [mem_singleton.mp isNew]
      exact .inr ⟨hold, (find_some isFound).1, (find_some isFound).2⟩
  | leaves other place fails gone isThere => exact leaving_leaveStep isThere member locked
  | indexes _ index => exact leaving_before (index_frame state index).1 member locked
  | dies other =>
    refine leaving_update rfl member locked ?_
    intro one isOne
    cases isOne
  | _ => exact leaving_before rfl member locked

/-! ### Markers, and what is kept -/

def Unmarks (state : State) (path : Path) : Event → Prop
  | .leaves pid place _ => ∃ leaving, (state.processes pid).leaving[place]? = some leaving ∧
      leaving.stage = .unmarking ∧ leaving.key.path = path
  | _ => False

structure Grows (state next : State) (path : Path) : Prop where
  kept : ∀ folder, (state.folders folder).kept ⊆ (next.folders folder).kept
  marks : state.marks path = true → next.marks path = true

theorem grows_same (sameFolders : next.folders = state.folders)
    (sameMarks : next.marks = state.marks) : Grows state next path := by
  constructor
  · intro folder
    rw [sameFolders]
    exact .refl _
  · intro isMarked
    rw [sameMarks]
    exact isMarked

theorem grows_folder {folder : Str} {kept : Folder}
    (grows : (state.folders folder).kept ⊆ kept.kept)
    (sameFolders : next.folders = update state.folders folder kept)
    (sameMarks : next.marks = state.marks) : Grows state next path := by
  constructor
  · intro other
    rw [sameFolders]
    by_cases isFolder : other = folder
    · rw [isFolder, update_self]
      exact grows
    · rw [update_of_ne isFolder]
      exact .refl _
  · intro isMarked
    rw [sameMarks]
    exact isMarked

theorem grows_mark {marked : Path} (sameFolders : next.folders = state.folders)
    (marks : next.marks = update state.marks marked true) : Grows state next path := by
  constructor
  · intro folder
    rw [sameFolders]
    exact .refl _
  · intro isMarked
    rw [marks]
    by_cases isPath : path = marked
    · rw [isPath, update_self]
    · rw [update_of_ne isPath]
      exact isMarked

theorem grows_index (state : State) (index : Index) (path : Path) :
    Grows state (index.step state).1 path := by
  unfold Index.step
  split
  · exact grows_mark rfl rfl
  · exact grows_same rfl rfl
  · exact grows_same rfl rfl
  · refine grows_folder ?_ rfl rfl
    exact .refl _

theorem Grows.then_same {further : State} (grows : Grows state next path)
    (sameFolders : further.folders = next.folders) (sameMarks : further.marks = next.marks) :
    Grows state further path := by
  constructor
  · intro folder
    rw [sameFolders]
    exact grows.kept folder
  · intro isMarked
    rw [sameMarks]
    exact grows.marks isMarked

theorem grows_acquireStep {other : Nat} {fails : Bool} :
    Grows state (acquireStep state other acquiring fails) path := by
  rcases acquireStep_cases state other acquiring fails with
    ⟨next, stage, turns, isStep⟩ | ⟨-, -, isStep⟩
  · have grows : Grows state next path := by
      cases turns with
      | indexes index _ => exact grows_index state index path
      | marks _ => exact grows_mark rfl rfl
      | keeps _ _ => exact grows_folder (subset_append_left _ _) rfl rfl
      | _ => exact grows_same rfl rfl
    rw [isStep]
    cases stage <;> exact grows.then_same rfl rfl
  · rw [isStep]
    exact grows_same rfl rfl

theorem grows_noteStep {other : Nat} {noting : Noting} {fails : Bool} :
    Grows state (noteStep state other noting fails) path := by
  obtain ⟨next, held, further, notes, isStep⟩ := noteStep_cases state other noting fails
  rw [isStep]
  cases notes <;> exact grows_same rfl rfl

theorem grows_leaveStep {other place : Nat} {fails : Bool}
    (notUnmarked : leaving.stage = .unmarking → leaving.key.path ≠ path) :
    Grows state (leaveStep state other place leaving fails) path := by
  obtain ⟨next, stage, leaves, isStep⟩ := leaveStep_cases state other place leaving fails
  rw [isStep]
  cases leaves with
  | unmarks isStage =>
    refine ⟨fun folder => .refl _, fun isMarked => ?_⟩
    show update state.marks leaving.key.path false path = true
    rw [update_of_ne (Ne.symm (notUnmarked isStage))]
    exact isMarked
  | _ => exact grows_same rfl rfl

theorem grows_step (state : State) (event : Event) (path : Path) :
    Grows state (step state event) path ∨ Unmarks state path event := by
  have outcome := outcome_step state event
  generalize step state event = next at outcome ⊢
  cases outcome with
  | opens pid thread key asked names =>
    left
    exact @grows_folder _ _ _ key.path.folder
      { state.folders key.path.folder with names := names } (.refl _) rfl rfl
  | acquires => exact .inl grows_acquireStep
  | notes => exact .inl grows_noteStep
  | leaves other place fails leaving isThere =>
    by_cases unmarks : Unmarks state path (.leaves other place fails)
    · exact .inr unmarks
    · left
      apply grows_leaveStep
      intro isStage isPath
      exact unmarks ⟨leaving, isThere, isStage, isPath⟩
  | indexes _ index => exact .inl ((grows_index state index path).then_same rfl rfl)
  | _ => exact .inl (grows_same rfl rfl)

theorem leaves_folders (state : State) (other place : Nat) (fails : Bool) :
    (step state (.leaves other place fails)).folders = state.folders := by
  unfold step
  dsimp only
  split
  · rfl
  · rename_i leaving _
    obtain ⟨next, stage, leaves, isStep⟩ := leaveStep_cases state other place leaving fails
    rw [isStep]
    cases leaves <;> rfl

theorem kept_step (state : State) (event : Event) (folder : Str) :
    (state.folders folder).kept ⊆ ((step state event).folders folder).kept := by
  rcases grows_step state event ⟨folder, []⟩ with grows | unmarks
  · exact grows.kept folder
  · cases event with
    | leaves other place fails =>
      rw [leaves_folders]
      exact .refl _
    | _ => cases unmarks

end Nmas.Holds
