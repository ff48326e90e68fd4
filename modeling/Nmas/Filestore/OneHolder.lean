import Mathlib.Logic.Function.Basic
import Nmas.Filestore.PathLock

/-!
Contract: one thread at most holds a path, in every state of every run of enters and exits whose
enters raise no more than an `Exception`.

`Sound` ties the three tables together: a lock is owned as often as its owner's slot is deep, and
once more while the owner is behind `acquire` and has no slot yet, or has none any more. A step of
one thread amends one path's lock, slot and file (`Sound.amend`).
-/

namespace Nmas.Filestore

open Function Option

/-! ### What a lock counts -/

section Count

variable {lock : Option (Thread × Nat)} {thread : Thread}

theorem ownedBy_acquire {taken : Thread × Nat} (isTaken : acquire lock thread = some taken) :
    ownedBy (some taken) thread = ownedBy lock thread + 1 ∧
      ∀ other ≠ thread, ownedBy (some taken) other = ownedBy lock other := by
  cases lock with
  | none =>
    cases isTaken
    exact ⟨by simp [ownedBy], fun other isOther => by simp [ownedBy, isOther.symm]⟩
  | some held =>
    obtain ⟨owner, count⟩ := held
    by_cases isOwner : owner = thread
    · subst isOwner
      rw [acquire, if_pos rfl, some_inj] at isTaken
      subst isTaken
      exact ⟨by simp [ownedBy], fun other isOther => by simp [ownedBy, isOther.symm]⟩
    · rw [acquire, if_neg isOwner] at isTaken
      cases isTaken

theorem ownedBy_release : ownedBy (release lock thread) thread = ownedBy lock thread - 1 ∧
    ∀ other ≠ thread, ownedBy (release lock thread) other = ownedBy lock other := by
  cases lock with
  | none => exact ⟨rfl, fun _ _ => rfl⟩
  | some held =>
    obtain ⟨owner, count⟩ := held
    by_cases isOwner : owner = thread
    · subst isOwner
      rw [release, if_pos rfl]
      split
      · rename_i isLast
        refine ⟨by simp [ownedBy]; omega, fun other isOther => by simp [ownedBy, isOther.symm]⟩
      · exact ⟨by simp [ownedBy], fun other isOther => by simp [ownedBy, isOther.symm]⟩
    · rw [release, if_neg isOwner]
      exact ⟨by simp [ownedBy, isOwner], fun _ _ => rfl⟩

theorem acquire_of_owned (isOwned : 0 < ownedBy lock thread) : acquire lock thread ≠ none := by
  cases lock with
  | none => cases isOwned
  | some held =>
    obtain ⟨owner, count⟩ := held
    by_cases isOwner : owner = thread
    · simp [acquire, isOwner]
    · simp [ownedBy, isOwner] at isOwned

end Count

/-! ### The invariant -/

def depthOf (slot : Option Slot) : Nat := slot.elim 0 Slot.depth

def State.depth (state : State) (thread : Thread) (path : Path) : Nat :=
  depthOf (state.table thread path)

/-- Behind `acquire` and without the slot for it. -/
def Phase.pending (phase : Phase) (path : Path) : Nat :=
  match phase with
  | .opening _ own _ | .flocking _ own _ _ | .releasing own _ => if own = path then 1 else 0
  | _ => 0

def Phase.Fits (registry : Path → Option Nat) (table : Path → Option Slot) (thread : Thread) :
    Phase → Prop
  | .idle => True
  | .acquiring _ path rlock nested => registry path = some rlock ∧ (table path).isSome = nested
  | .opening _ path rlock => registry path = some rlock ∧ table path = none
  | .flocking _ path rlock file =>
    registry path = some rlock ∧ table path = none ∧ file.thread = thread
  | .releasing path rlock => registry path = some rlock

structure Sound (state : State) : Prop where
  fresh : ∀ process path rlock, state.registry process path = some rlock → rlock < state.next
  unmade : ∀ rlock, state.next ≤ rlock → state.rlocks rlock = none
  apart : ∀ process path other place rlock, state.registry process path = some rlock →
    state.registry other place = some rlock → process = other ∧ path = place
  counted : ∀ thread process path rlock, state.registry process path = some rlock →
    ownedBy (state.rlocks rlock) thread =
      if thread.process = process then state.depth thread path + (state.phase thread).pending path
      else 0
  slots : ∀ thread path slot, state.table thread path = some slot →
    state.registry thread.process path = some slot.rlock ∧ 0 < slot.depth ∧
      ∃ file, slot.file = some file ∧ file.thread = thread ∧ state.flock path = some file
  files : ∀ path file, state.flock path = some file →
    ∃ slot, state.table file.thread path = some slot ∧ slot.file = some file
  fits : ∀ thread, (state.phase thread).Fits (state.registry thread.process) (state.table thread)
    thread

theorem sound_initial : Sound .initial where
  fresh _ _ _ isMade := by cases isMade
  unmade _ _ := rfl
  apart _ _ _ _ _ isMade := by cases isMade
  counted _ _ _ _ isMade := by cases isMade
  slots _ _ _ isSlot := by cases isSlot
  files _ _ isFile := by cases isFile
  fits _ := trivial

def State.amend (state : State) (thread : Thread) (path : Path) (rlock : Nat)
    (lock : Option (Thread × Nat)) (slot : Option Slot) (file : Option File) (phase : Phase)
    (entered : Thread → Nat → List Path) (next : Nat) : State where
  registry := state.registry
  rlocks := update state.rlocks rlock lock
  flock := update state.flock path file
  table := update state.table thread (update (state.table thread) path slot)
  entered := entered
  phase := update state.phase thread phase
  next := next

section Amend

variable {state : State} {thread : Thread} {path : Path} {rlock next : Nat}
  {lock : Option (Thread × Nat)} {slot : Option Slot} {file : Option File} {phase : Phase}
  {entered : Thread → Nat → List Path}

theorem Sound.amend (sound : Sound state)
    (own : state.registry thread.process path = some rlock)
    (others : ∀ other ≠ thread, ownedBy lock other = ownedBy (state.rlocks rlock) other)
    (counted : ownedBy lock thread = depthOf slot + phase.pending path)
    (elsewhere : ∀ place ≠ path, phase.pending place = (state.phase thread).pending place)
    (isSlot : ∀ held, slot = some held → held.rlock = rlock ∧ 0 < held.depth ∧
      ∃ opened, held.file = some opened ∧ opened.thread = thread ∧ file = some opened)
    (isFile : ∀ opened, file = some opened →
      (opened.thread = thread → ∃ held, slot = some held ∧ held.file = some opened) ∧
      (opened.thread ≠ thread → state.flock path = some opened))
    (stands : ∀ other ≠ thread, ∀ held, state.table other path = some held →
      file = state.flock path)
    (fits : phase.Fits (state.registry thread.process)
      (update (state.table thread) path slot) thread)
    (room : state.next ≤ next) :
    Sound (state.amend thread path rlock lock slot file phase entered next) where
  fresh process place other isMade :=
    Nat.lt_of_lt_of_le (sound.fresh process place other isMade) room
  unmade other isLater := by
    have isUnmade : state.next ≤ other := Nat.le_trans room isLater
    have isOther : other ≠ rlock := by
      rintro rfl
      exact absurd (sound.fresh _ _ _ own) (Nat.not_lt.mpr isUnmade)
    exact (update_of_ne isOther _ _).trans (sound.unmade other isUnmade)
  apart := sound.apart
  counted one process place other isMade := by
    have was := sound.counted one process place other isMade
    by_cases isLock : other = rlock
    · subst isLock
      obtain ⟨isProcess, isPath⟩ := sound.apart _ _ _ _ _ isMade own
      subst isProcess isPath
      by_cases isOne : one = thread
      · subst isOne
        simp only [State.amend, State.depth, update_self, if_true]
        exact counted
      · simp only [State.amend, State.depth, update_self, update_of_ne isOne]
        rw [others one isOne]
        exact was
    · simp only [State.amend, State.depth, update_of_ne isLock]
      by_cases isOne : one = thread
      · subst isOne
        by_cases isHome : one.process = process
        · subst isHome
          have isPlace : place ≠ path := by
            rintro rfl
            exact isLock (some_inj.mp (isMade.symm.trans own))
          rw [update_self, update_self, update_of_ne isPlace, elsewhere place isPlace]
          exact was
        · rw [if_neg isHome] at was ⊢
          exact was
      · rw [update_of_ne isOne, update_of_ne isOne]
        exact was
  slots one place held isHeld := by
    by_cases isOne : one = thread
    · subst isOne
      simp only [State.amend, update_self] at isHeld ⊢
      by_cases isPlace : place = path
      · subst isPlace
        rw [update_self] at isHeld
        obtain ⟨isLock, isDeep, opened, isOpened, isOwn, isFlock⟩ := isSlot held isHeld
        exact ⟨isLock ▸ own, isDeep, opened, isOpened, isOwn, (update_self ..).trans isFlock⟩
      · rw [update_of_ne isPlace] at isHeld
        rw [update_of_ne isPlace]
        exact sound.slots one place held isHeld
    · simp only [State.amend, update_of_ne isOne] at isHeld ⊢
      obtain ⟨isMade, isDeep, opened, isOpened, isOwn, isFlock⟩ := sound.slots one place held isHeld
      refine ⟨isMade, isDeep, opened, isOpened, isOwn, ?_⟩
      by_cases isPlace : place = path
      · subst isPlace
        rw [update_self, stands one isOne held isHeld, isFlock]
      · rw [update_of_ne isPlace, isFlock]
  files place opened isOpened := by
    simp only [State.amend] at isOpened ⊢
    by_cases isPlace : place = path
    · subst isPlace
      rw [update_self] at isOpened
      obtain ⟨isMine, isOther⟩ := isFile opened isOpened
      by_cases isOne : opened.thread = thread
      · rw [isOne, update_self, update_self]
        exact isMine isOne
      · rw [update_of_ne isOne]
        exact sound.files place opened (isOther isOne)
    · rw [update_of_ne isPlace] at isOpened
      obtain ⟨held, isHeld, isFile⟩ := sound.files place opened isOpened
      refine ⟨held, ?_, isFile⟩
      by_cases isOne : opened.thread = thread
      · rw [isOne] at isHeld ⊢
        rwa [update_self, update_of_ne isPlace]
      · rwa [update_of_ne isOne]
  fits one := by
    simp only [State.amend]
    by_cases isOne : one = thread
    · subst isOne
      rw [update_self, update_self]
      exact fits
    · rw [update_of_ne isOne, update_of_ne isOne]
      exact sound.fits one

theorem Sound.locks (sound : Sound state) (own : state.registry thread.process path = some rlock)
    (others : ∀ other ≠ thread, ownedBy lock other = ownedBy (state.rlocks rlock) other)
    (counted : ownedBy lock thread = state.depth thread path + phase.pending path)
    (elsewhere : ∀ place ≠ path, phase.pending place = (state.phase thread).pending place)
    (fits : phase.Fits (state.registry thread.process) (state.table thread) thread)
    (room : state.next ≤ next) :
    Sound (state.amend thread path rlock lock (state.table thread path) (state.flock path) phase
      entered next) := by
  refine sound.amend own others counted elsewhere (fun held isHeld => ?_) (fun opened isOpened => ?_)
    (fun _ _ _ _ => rfl) (by rwa [update_eq_self]) room
  · obtain ⟨isMade, isDeep, file⟩ := sound.slots thread path held isHeld
    exact ⟨some_inj.mp (isMade.symm.trans own), isDeep, file⟩
  · refine ⟨fun isOwn => ?_, fun _ => isOpened⟩
    rw [← isOwn]
    exact sound.files path opened isOpened

end Amend

/-! ### Each step keeps it -/

section Steps

variable {state : State} {thread : Thread} {inst rlock : Nat} {path : Path}

theorem Sound.registers (sound : Sound state) (isNew : state.registry thread.process path = none) :
    Sound (state.register thread path) := by
  have entries {process : Nat} {place : Path} {other : Nat}
      (isMade : (state.register thread path).registry process place = some other) :
      process = thread.process ∧ place = path ∧ other = state.next ∨
        state.registry process place = some other := by
    unfold State.register at isMade
    by_cases isProcess : process = thread.process
    · subst isProcess
      simp only [update_self] at isMade
      by_cases isPlace : place = path
      · subst isPlace
        rw [update_self, some_inj] at isMade
        exact .inl ⟨rfl, rfl, isMade.symm⟩
      · rw [update_of_ne isPlace] at isMade
        exact .inr isMade
    · simp only [update_of_ne isProcess] at isMade
      exact .inr isMade
  have kept {process : Nat} {place : Path} {other : Nat}
      (isMade : state.registry process place = some other) :
      (state.register thread path).registry process place = some other := by
    unfold State.register
    by_cases isProcess : process = thread.process
    · subst isProcess
      have isOther : place ≠ path := by
        rintro rfl
        cases isNew.symm.trans isMade
      simp only [update_self, update_of_ne isOther, isMade]
    · simp only [update_of_ne isProcess, isMade]
  refine ⟨fun process place other isMade => ?_, fun other isLater => ?_,
    fun process place other there rlock isMade isToo => ?_, fun one process place other isMade => ?_,
    fun one place slot isSlot => ?_, sound.files, fun one => ?_⟩
  · rcases entries isMade with ⟨-, -, isOther⟩ | isOld
    · subst isOther
      exact Nat.lt_succ_self _
    · exact Nat.lt_succ_of_lt (sound.fresh _ _ _ isOld)
  · exact sound.unmade other (Nat.le_of_succ_le isLater)
  · rcases entries isMade with ⟨isProcess, isPlace, isLock⟩ | isOld
    · rcases entries isToo with ⟨isOther, isThere, -⟩ | isOther
      · exact ⟨isProcess.trans isOther.symm, isPlace.trans isThere.symm⟩
      · exact absurd (sound.fresh _ _ _ isOther) (by omega)
    · rcases entries isToo with ⟨-, -, isLock⟩ | isOther
      · exact absurd (sound.fresh _ _ _ isOld) (by omega)
      · exact sound.apart _ _ _ _ _ isOld isOther
  · rcases entries isMade with ⟨isProcess, isPlace, isLock⟩ | isOld
    · subst isProcess isPlace isLock
      have noSlot (isHome : one.process = thread.process) : state.table one place = none := by
        cases isSlot : state.table one place with
        | none => rfl
        | some slot =>
          have isMade := (sound.slots one place slot isSlot).1
          rw [isHome, isNew] at isMade
          cases isMade
      have noPhase (isHome : one.process = thread.process) :
          (state.phase one).pending place = 0 := by
        have fits := sound.fits one
        cases isPhase : state.phase one with
        | idle | acquiring inst own rlock nested => rfl
        | opening inst own rlock | flocking inst own rlock file | releasing own rlock =>
          rw [isPhase, Phase.Fits, isHome] at fits
          rw [Phase.pending, if_neg]
          rintro rfl
          rw [isNew] at fits
          simp at fits
      change ownedBy (state.rlocks state.next) one = if one.process = thread.process then
        state.depth one place + (state.phase one).pending place else 0
      rw [sound.unmade _ (Nat.le_refl _)]
      split
      · rename_i isHome
        rw [State.depth, noSlot isHome, noPhase isHome]
        rfl
      · rfl
    · exact sound.counted one process place other isOld
  · obtain ⟨isMade, rest⟩ := sound.slots one place slot isSlot
    exact ⟨kept isMade, rest⟩
  · have fits := sound.fits one
    change (state.phase one).Fits ((state.register thread path).registry one.process)
      (state.table one) one
    revert fits
    cases state.phase one with
    | idle => exact id
    | acquiring inst own rlock nested => exact fun fits => ⟨kept fits.1, fits.2⟩
    | opening inst own rlock => exact fun fits => ⟨kept fits.1, fits.2⟩
    | flocking inst own rlock file => exact fun fits => ⟨kept fits.1, fits.2⟩
    | releasing own rlock => exact kept

theorem Sound.acquiring (sound : Sound state) (isIdle : state.phase thread = .idle)
    (own : state.registry thread.process path = some rlock) {nested : Bool}
    (isNested : (state.table thread path).isSome = nested) :
    Sound (state.setPhase thread (.acquiring inst path rlock nested)) := by
  have counted := sound.counted thread _ path rlock own
  rw [if_pos rfl, isIdle] at counted
  have same : state.setPhase thread (.acquiring inst path rlock nested) =
      state.amend thread path rlock (state.rlocks rlock) (state.table thread path)
        (state.flock path) (.acquiring inst path rlock nested) state.entered state.next := by
    simp only [State.setPhase, State.amend, update_eq_self]
  rw [same]
  exact sound.locks own (fun _ _ => rfl) counted (fun _ _ => by rw [isIdle]; rfl)
    ⟨own, isNested⟩ (Nat.le_refl _)

theorem Sound.enters (sound : Sound state) (isIdle : state.phase thread = .idle) :
    Sound (enters state thread inst path) := by
  unfold Filestore.enters
  cases isSlot : state.table thread path with
  | some slot =>
    exact sound.acquiring isIdle (sound.slots thread path slot isSlot).1 (by rw [isSlot]; rfl)
  | none =>
    cases isMade : state.registry thread.process path with
    | some rlock => exact sound.acquiring isIdle isMade (by rw [isSlot]; rfl)
    | none =>
      have own : (state.register thread path).registry thread.process path =
          some state.next := by simp only [State.register, update_self]
      exact (sound.registers isMade).acquiring isIdle own (by rw [State.register, isSlot]; rfl)

theorem Sound.counted_own (sound : Sound state)
    (own : state.registry thread.process path = some rlock) :
    ownedBy (state.rlocks rlock) thread =
      state.depth thread path + (state.phase thread).pending path := by
  rw [sound.counted thread _ path rlock own, if_pos rfl]

theorem depth_of_none (noSlot : state.table thread path = none) : state.depth thread path = 0 := by
  rw [State.depth, noSlot]
  rfl

theorem Phase.pending_other {phase : Phase} {place : Path} (isOther : place ≠ path)
    (isOwn : phase = .opening inst path rlock ∨
      (∃ file, phase = .flocking inst path rlock file) ∨ phase = .releasing path rlock) :
    phase.pending place = 0 := by
  rcases isOwn with rfl | ⟨file, rfl⟩ | rfl
  all_goals exact if_neg isOther.symm

theorem Sound.released (sound : Sound state)
    (isPhase : state.phase thread = .opening inst path rlock ∨
      (∃ file, state.phase thread = .flocking inst path rlock file) ∨
      state.phase thread = .releasing path rlock) :
    Sound (state.raised thread rlock true) := by
  have own : state.registry thread.process path = some rlock := by
    have fits := sound.fits thread
    rcases isPhase with isPhase | ⟨file, isPhase⟩ | isPhase
    · rw [isPhase] at fits
      exact fits.1
    · rw [isPhase] at fits
      exact fits.1
    · rw [isPhase] at fits
      exact fits
  have pending : (state.phase thread).pending path = 1 := by
    rcases isPhase with isPhase | ⟨file, isPhase⟩ | isPhase
    all_goals
      rw [isPhase]
      exact if_pos rfl
  have counted := sound.counted_own own
  have isReleased := @ownedBy_release (state.rlocks rlock) thread
  have same : state.raised thread rlock true =
      state.amend thread path rlock (release (state.rlocks rlock) thread)
        (state.table thread path) (state.flock path) .idle state.entered state.next := by
    simp only [State.raised, State.setPhase, State.setLock, State.amend, update_eq_self, if_true]
  rw [same]
  refine sound.locks own isReleased.2 ?_
    (fun place isOther => (Phase.pending_other isOther isPhase).symm) trivial (Nat.le_refl _)
  have nothing : Phase.idle.pending path = 0 := rfl
  omega

theorem Sound.enter (sound : Sound state) {lock : Option (Thread × Nat)} {slot : Slot}
    {file : Option File} {opened : File}
    (own : state.registry thread.process path = some rlock)
    (others : ∀ other ≠ thread, ownedBy lock other = ownedBy (state.rlocks rlock) other)
    (counted : ownedBy lock thread = slot.depth)
    (elsewhere : ∀ place ≠ path, (state.phase thread).pending place = 0)
    (isLock : slot.rlock = rlock) (isDeep : 0 < slot.depth) (isOpened : slot.file = some opened)
    (isOwn : opened.thread = thread) (isFile : file = some opened)
    (stands : ∀ other ≠ thread, ∀ held, state.table other path = some held →
      file = state.flock path) :
    Sound (((state.setLock rlock lock).setFlock path file).enter thread inst path slot) := by
  have same : ((state.setLock rlock lock).setFlock path file).enter thread inst path slot =
      state.amend thread path rlock lock (some slot) file .idle
        (update state.entered thread
          (update (state.entered thread) inst (path :: state.entered thread inst)))
        state.next := rfl
  rw [same]
  refine sound.amend own others counted (fun place isOther => (elsewhere place isOther).symm)
    (fun held isHeld => ?_) (fun other isOther => ?_) stands trivial (Nat.le_refl _)
  · obtain rfl := some_inj.mp isHeld
    exact ⟨isLock, isDeep, opened, isOpened, isOwn, isFile⟩
  · obtain rfl := some_inj.mp (isFile.symm.trans isOther)
    exact ⟨fun _ => ⟨slot, rfl, isOpened⟩, fun notOwn => absurd isOwn notOwn⟩

theorem Sound.noSlot (sound : Sound state) (isFree : state.flock path = none) (other : Thread)
    (held : Slot) : state.table other path ≠ some held := by
  intro isHeld
  obtain ⟨-, -, file, -, -, isFlock⟩ := sound.slots other path held isHeld
  cases isFree.symm.trans isFlock

theorem Sound.goesOn_acquiring (sound : Sound state) {nested : Bool} {turn : Turn}
    (isPhase : state.phase thread = .acquiring inst path rlock nested) :
    Sound (goesOn state thread turn) := by
  obtain ⟨own, isNested⟩ : state.registry thread.process path = some rlock ∧
      (state.table thread path).isSome = nested := by
    have fits := sound.fits thread
    rwa [isPhase] at fits
  have counted := sound.counted_own own
  have nothing (place : Path) : (state.phase thread).pending place = 0 := by rw [isPhase]; rfl
  have rests : Sound (state.setPhase thread .idle) := by
    have same : state.setPhase thread .idle = state.amend thread path rlock (state.rlocks rlock)
        (state.table thread path) (state.flock path) .idle state.entered state.next := by
      simp only [State.setPhase, State.amend, update_eq_self]
    rw [same]
    refine sound.locks own (fun _ _ => rfl) ?_ (fun place _ => (nothing place).symm) trivial
      (Nat.le_refl _)
    rw [counted, nothing]
    rfl
  have takes : Sound (goesOn state thread .goes) := by
    unfold goesOn
    rw [isPhase]
    dsimp only
    cases isTaken : acquire (state.rlocks rlock) thread with
    | none => exact sound
    | some lock =>
      obtain ⟨isMore, others⟩ := ownedBy_acquire isTaken
      rw [counted, nothing] at isMore
      cases isSlot : state.table thread path with
      | some slot =>
        obtain ⟨isMade, isDeep, opened, isOpened, isOwn, isFlock⟩ :=
          sound.slots thread path slot isSlot
        rw [isSlot] at isNested
        subst isNested
        rw [State.depth, isSlot] at isMore
        have again : Sound (((state.setLock rlock (some lock)).setFlock path
            (state.flock path)).enter thread inst path { slot with depth := slot.depth + 1 }) :=
          sound.enter own others isMore (fun place _ => nothing place)
            (some_inj.mp (isMade.symm.trans own)) (Nat.succ_pos _) isOpened isOwn isFlock
            fun _ _ _ _ => rfl
        have same : (state.setLock rlock (some lock)).setFlock path (state.flock path) =
            state.setLock rlock (some lock) := by
          simp only [State.setFlock, State.setLock, update_eq_self]
        rw [same] at again
        have isHeld : (state.setLock rlock (some lock)).table thread path = some slot := isSlot
        simp only [isSome_some, taken, isHeld]
        exact again
      | none =>
        rw [isSlot] at isNested
        subst isNested
        have same : (state.setLock rlock (some lock)).setPhase thread (.opening inst path rlock) =
            state.amend thread path rlock (some lock) (state.table thread path)
              (state.flock path) (.opening inst path rlock) state.entered state.next := by
          simp only [State.setPhase, State.setLock, State.amend, update_eq_self]
        change Sound ((state.setLock rlock (some lock)).setPhase thread (.opening inst path rlock))
        rw [same]
        refine sound.locks own others ?_ (fun place isOther => ?_) ⟨own, isSlot⟩ (Nat.le_refl _)
        · rw [isMore]
          exact congrArg _ (if_pos rfl).symm
        · rw [nothing, Phase.pending_other isOther (.inl rfl)]
  unfold goesOn at takes ⊢
  rw [isPhase] at takes ⊢
  cases turn with
  | raises isException closes => exact rests
  | goes | noFcntl => exact takes

/-- A turn of an enter that raises no more than an `Exception`, behind which a descriptor can be
closed, with `fcntl` there. -/
def Turn.Clean : Turn → Phase → Prop
  | .noFcntl, .opening .. => False
  | .raises isException _, .opening .. => isException = true
  | .raises isException closes, .flocking .. => isException = true ∧ closes = true
  | _, _ => True

def Clean (state : State) : Event → Prop
  | .goesOn thread turn => turn.Clean (state.phase thread)
  | _ => True

theorem Sound.goesOn_opening (sound : Sound state) {turn : Turn}
    (isPhase : state.phase thread = .opening inst path rlock)
    (clean : turn.Clean (state.phase thread)) : Sound (goesOn state thread turn) := by
  unfold goesOn
  rw [isPhase] at clean ⊢
  cases turn with
  | noFcntl => exact absurd clean id
  | raises isException closes =>
    cases clean
    exact sound.released (.inl isPhase)
  | goes =>
    obtain ⟨own, noSlot⟩ : state.registry thread.process path = some rlock ∧
        state.table thread path = none := by
      have fits := sound.fits thread
      rwa [isPhase] at fits
    have counted := sound.counted_own own
    have same : ({ state with
          phase := update state.phase thread (.flocking inst path rlock ⟨thread, state.next⟩)
          next := state.next + 1 } : State) =
        state.amend thread path rlock (state.rlocks rlock) (state.table thread path)
          (state.flock path) (.flocking inst path rlock ⟨thread, state.next⟩) state.entered
          (state.next + 1) := by
      simp only [State.amend, update_eq_self]
    change Sound { state with
      phase := update state.phase thread (.flocking inst path rlock ⟨thread, state.next⟩)
      next := state.next + 1 }
    rw [same]
    refine sound.locks own (fun _ _ => rfl) ?_ (fun place isOther => ?_) ⟨own, noSlot, rfl⟩
      (Nat.le_succ _)
    · rw [counted, isPhase]
      rfl
    · rw [isPhase]
      rfl

theorem Sound.goesOn_flocking (sound : Sound state) {turn : Turn} {file : File}
    (isPhase : state.phase thread = .flocking inst path rlock file)
    (clean : turn.Clean (state.phase thread)) : Sound (goesOn state thread turn) := by
  obtain ⟨own, noSlot, isOwn⟩ : state.registry thread.process path = some rlock ∧
      state.table thread path = none ∧ file.thread = thread := by
    have fits := sound.fits thread
    rwa [isPhase] at fits
  have takes : Sound (goesOn state thread .goes) := by
    unfold goesOn
    rw [isPhase]
    dsimp only
    cases isFlock : state.flock path with
    | some held => exact sound
    | none =>
      have counted := sound.counted_own own
      rw [depth_of_none noSlot, isPhase] at counted
      have enters : Sound (((state.setLock rlock (state.rlocks rlock)).setFlock path
          (some file)).enter thread inst path ⟨1, rlock, some file⟩) :=
        sound.enter own (fun _ _ => rfl)
          (counted.trans (congrArg _ (if_pos rfl)))
          (fun place isOther => Phase.pending_other isOther (.inr (.inl ⟨file, isPhase⟩)))
          rfl Nat.one_pos rfl isOwn rfl
          (fun other _ held isHeld => absurd isHeld (sound.noSlot isFlock other held))
      have same : state.setLock rlock (state.rlocks rlock) = state := by
        simp only [State.setLock, update_eq_self]
      rwa [same] at enters
  unfold goesOn at takes ⊢
  rw [isPhase] at clean takes ⊢
  cases turn with
  | raises isException closes =>
    obtain ⟨rfl, rfl⟩ := clean
    exact sound.released (.inr (.inl ⟨file, isPhase⟩))
  | goes | noFcntl => exact takes

theorem Sound.goesOn (sound : Sound state) {turn : Turn}
    (clean : turn.Clean (state.phase thread)) : Sound (goesOn state thread turn) := by
  cases isPhase : state.phase thread with
  | idle =>
    unfold Filestore.goesOn
    rw [isPhase]
    exact sound
  | acquiring inst path rlock nested => exact sound.goesOn_acquiring isPhase
  | opening inst path rlock => exact sound.goesOn_opening isPhase clean
  | flocking inst path rlock file => exact sound.goesOn_flocking isPhase clean
  | releasing path rlock =>
    have released := @Sound.released state thread 0 rlock path sound (.inr (.inr isPhase))
    unfold Filestore.goesOn
    rw [isPhase]
    exact released

theorem Sound.leave (sound : Sound state) {slot : Slot} (isIdle : state.phase thread = .idle)
    (isSlot : state.table thread path = some slot) : Sound (leave state thread path slot) := by
  obtain ⟨own, isDeep, opened, isOpened, isOwn, isFlock⟩ := sound.slots thread path slot isSlot
  have held : ownedBy (state.rlocks slot.rlock) thread = slot.depth := by
    rw [sound.counted_own own, State.depth, isSlot, isIdle]
    rfl
  have pending : (Phase.releasing path slot.rlock).pending path = 1 := if_pos rfl
  have elsewhere (place : Path) (isOther : place ≠ path) :
      (Phase.releasing path slot.rlock).pending place = (state.phase thread).pending place := by
    rw [isIdle]
    exact if_neg isOther.symm
  unfold Filestore.leave
  split
  · have same : ((state.setSlot thread path none).setFlock path none).setPhase thread
          (.releasing path slot.rlock) =
        state.amend thread path slot.rlock (state.rlocks slot.rlock) none none
          (.releasing path slot.rlock) state.entered state.next := by
      simp only [State.setPhase, State.setSlot, State.setFlock, State.amend, update_eq_self]
    rw [if_pos ⟨by rw [isOpened]; rfl, isFlock.trans isOpened.symm⟩, same]
    refine sound.amend own (fun _ _ => rfl) ?_ elsewhere nofun
      nofun (fun other isOther kept isKept => ?_) own (Nat.le_refl _)
    · rw [held, pending, depthOf, elim_none]
      omega
    · obtain ⟨-, -, file, -, isTheirs, isLocked⟩ := sound.slots other path kept isKept
      have isSame := some_inj.mp (isFlock.symm.trans isLocked)
      exact absurd (isTheirs.symm.trans (isSame ▸ isOwn)) isOther
  · have same : (state.setSlot thread path (some { slot with depth := slot.depth - 1 })).setPhase
          thread (.releasing path slot.rlock) =
        state.amend thread path slot.rlock (state.rlocks slot.rlock)
          (some { slot with depth := slot.depth - 1 }) (state.flock path)
          (.releasing path slot.rlock) state.entered state.next := by
      simp only [State.setPhase, State.setSlot, State.amend, update_eq_self]
    rw [same]
    refine sound.amend own (fun _ _ => rfl) ?_ elsewhere (fun kept isKept => ?_)
      (fun file isFile => ⟨fun isTheirs => ?_, fun _ => isFile⟩) (fun _ _ _ _ => rfl) own
      (Nat.le_refl _)
    · rw [held, pending]
      exact (Nat.sub_add_cancel isDeep).symm
    · obtain rfl := some_inj.mp isKept
      exact ⟨rfl, by change 0 < slot.depth - 1; omega, opened, isOpened, isOwn, isFlock⟩
    · exact ⟨_, rfl, isOpened.trans (isFlock.symm.trans isFile)⟩

theorem Sound.exits (sound : Sound state) (isIdle : state.phase thread = .idle) :
    Sound (exits state thread inst) := by
  have popped (rest : List Path) : Sound (state.setEntered thread inst rest) :=
    ⟨sound.1, sound.2, sound.3, sound.4, sound.5, sound.6, sound.7⟩
  unfold Filestore.exits
  split
  · exact sound
  · split
    · exact popped _
    · exact (popped _).leave isIdle ‹_›

theorem Sound.step (sound : Sound state) {event : Event} (clean : Clean state event) :
    Sound (step state event) := by
  cases event with
  | goesOn thread turn => exact sound.goesOn clean
  | enters thread inst path =>
    rw [Filestore.step]
    split
    · exact sound.enters ‹_›
    · exact sound
  | exits thread inst =>
    rw [Filestore.step]
    split
    · exact sound.exits ‹_›
    · exact sound

end Steps

/-! ### Whole runs -/

def RunOf (kind : State → Event → Prop) : State → List Event → Prop
  | _, [] => True
  | state, event :: rest => kind state event ∧ RunOf kind (step state event) rest

def State.Waits (state : State) (thread : Thread) (path : Path) : Prop :=
  match state.phase thread with
  | .acquiring _ own rlock _ => own = path ∧ acquire (state.rlocks rlock) thread = none
  | .flocking _ own _ _ => own = path ∧ state.flock path ≠ none
  | _ => False

def State.owned (state : State) (thread : Thread) (path : Path) : Nat :=
  match state.registry thread.process path with
  | some rlock => ownedBy (state.rlocks rlock) thread
  | none => 0

/-- A thread has every lock, slot and stack as it had it. -/
structure AsWas (state after : State) (thread : Thread) : Prop where
  table : after.table thread = state.table thread
  entered : after.entered thread = state.entered thread
  owned : ∀ path, after.owned thread path = state.owned thread path
  flock : ∀ path file, file.thread = thread →
    (after.flock path = some file ↔ state.flock path = some file)

/-- What the lock is for, in a state: one holder of a path, its file lock held as long, no wait
for what a thread holds, and nothing left behind by an enter that raises. -/
structure Locks (kind : State → Event → Prop) (state : State) : Prop where
  one_holder : ∀ thread other path, 0 < state.depth thread path → 0 < state.depth other path →
    thread = other
  filed : ∀ path, (state.flock path).isSome = true ↔ ∃ thread, 0 < state.depth thread path
  not_waits : ∀ thread path, 0 < state.depth thread path → ¬ state.Waits thread path
  as_was : ∀ thread inst path later isException closes, state.phase thread = .idle →
    RunOf kind state (.enters thread inst path :: later ++
      [.goesOn thread (.raises isException closes)]) →
    (∀ event ∈ later, event.thread = thread → ∃ turn, event = .goesOn thread turn) →
    (run state (.enters thread inst path :: later)).phase thread ≠ .idle →
    AsWas state (run state (.enters thread inst path :: later ++
      [.goesOn thread (.raises isException closes)])) thread

section Runs

variable {state after : State} {thread : Thread} {path : Path} {inst : Nat} {events : List Event}
  {event : Event}

theorem Sound.run (sound : Sound state) (clean : RunOf Clean state events) :
    Sound (run state events) := by
  induction events generalizing state with
  | nil => exact sound
  | cons event rest ih =>
    exact ih (sound.step clean.1) clean.2

theorem depth_pos (isDeep : 0 < state.depth thread path) :
    ∃ slot, state.table thread path = some slot := by
  cases isSlot : state.table thread path with
  | some slot => exact ⟨slot, rfl⟩
  | none =>
    rw [depth_of_none isSlot] at isDeep
    exact absurd isDeep (Nat.lt_irrefl 0)

theorem Sound.alone (sound : Sound state) {other : Thread}
    (isDeep : 0 < state.depth thread path) (isToo : 0 < state.depth other path) :
    thread = other := by
  obtain ⟨slot, isSlot⟩ := depth_pos isDeep
  obtain ⟨held, isHeld⟩ := depth_pos isToo
  obtain ⟨-, -, file, -, isOwn, isFlock⟩ := sound.slots thread path slot isSlot
  obtain ⟨-, -, opened, -, isTheirs, isLocked⟩ := sound.slots other path held isHeld
  rw [← isOwn, ← isTheirs, some_inj.mp (isFlock.symm.trans isLocked)]

theorem Sound.filed (sound : Sound state) :
    (state.flock path).isSome ↔ ∃ thread, 0 < state.depth thread path := by
  constructor
  · intro isSome
    obtain ⟨file, isFlock⟩ := isSome_iff_exists.mp isSome
    obtain ⟨slot, isSlot, -⟩ := sound.files path file isFlock
    refine ⟨file.thread, ?_⟩
    rw [State.depth, isSlot]
    exact (sound.slots _ _ _ isSlot).2.1
  · rintro ⟨thread, isDeep⟩
    obtain ⟨slot, isSlot⟩ := depth_pos isDeep
    obtain ⟨-, -, file, -, -, isFlock⟩ := sound.slots thread path slot isSlot
    rw [isFlock]
    rfl

theorem Sound.not_waits (sound : Sound state) (isDeep : 0 < state.depth thread path) :
    ¬ state.Waits thread path := by
  have fits := sound.fits thread
  unfold State.Waits
  cases isPhase : state.phase thread with
  | acquiring inst own rlock nested =>
    rw [isPhase] at fits
    rintro ⟨rfl, isBlocked⟩
    refine acquire_of_owned ?_ isBlocked
    rw [sound.counted_own fits.1]
    exact Nat.add_pos_left isDeep _
  | flocking inst own rlock file =>
    rw [isPhase] at fits
    rintro ⟨rfl, -⟩
    rw [depth_of_none fits.2.1] at isDeep
    cases isDeep
  | idle | opening inst own rlock | releasing own rlock => exact id

theorem Sound.owned_idle (sound : Sound state) (isIdle : state.phase thread = .idle) :
    state.owned thread path = state.depth thread path := by
  unfold State.owned
  cases isMade : state.registry thread.process path with
  | some rlock =>
    change ownedBy (state.rlocks rlock) thread = _
    rw [sound.counted_own isMade, isIdle]
    rfl
  | none =>
    refine (depth_of_none ?_).symm
    cases isSlot : state.table thread path with
    | none => rfl
    | some slot => cases isMade.symm.trans (sound.slots thread path slot isSlot).1

theorem Sound.flock_own (sound : Sound state) {file : File} (isOwn : file.thread = thread) :
    state.flock path = some file ↔
      ∃ slot, state.table thread path = some slot ∧ slot.file = some file := by
  constructor
  · intro isFlock
    rw [← isOwn]
    exact sound.files path file isFlock
  · rintro ⟨slot, isSlot, isFile⟩
    obtain ⟨-, -, opened, isOpened, -, isFlock⟩ := sound.slots thread path slot isSlot
    rw [isFlock, ← isOpened, isFile]

theorem asWas_of_idle (sound : Sound state) (isSound : Sound after)
    (isIdle : state.phase thread = .idle) (isRest : after.phase thread = .idle)
    (table : after.table thread = state.table thread)
    (entered : after.entered thread = state.entered thread) : AsWas state after thread := by
  refine ⟨table, entered, fun path => ?_, fun path file isOwn => ?_⟩
  · rw [sound.owned_idle isIdle, isSound.owned_idle isRest, State.depth, State.depth, table]
  · rw [sound.flock_own isOwn, isSound.flock_own isOwn, table]

/-- Only one thread's slots, stacks and place differ. -/
def Apart (one : Thread) (state next : State) : Prop :=
  ∀ thread ≠ one, next.table thread = state.table thread ∧
    next.entered thread = state.entered thread ∧ next.phase thread = state.phase thread

section Apart

variable {one : Thread} {next : State} {phase : Phase} {slot : Slot}

theorem Apart.refl : Apart one state state := fun _ _ => ⟨rfl, rfl, rfl⟩

theorem Apart.setPhase (apart : Apart one state next) : Apart one state (next.setPhase one phase) :=
  fun thread isOther => ⟨(apart thread isOther).1, (apart thread isOther).2.1,
    (update_of_ne isOther _ _).trans (apart thread isOther).2.2⟩

theorem Apart.setSlot (apart : Apart one state next) {slot : Option Slot} :
    Apart one state (next.setSlot one path slot) :=
  fun thread isOther => ⟨(update_of_ne isOther _ _).trans (apart thread isOther).1,
    (apart thread isOther).2⟩

theorem Apart.setEntered (apart : Apart one state next) {paths : List Path} :
    Apart one state (next.setEntered one inst paths) :=
  fun thread isOther => ⟨(apart thread isOther).1,
    (update_of_ne isOther _ _).trans (apart thread isOther).2.1,
    (apart thread isOther).2.2⟩

theorem Apart.enter (apart : Apart one state next) : Apart one state (next.enter one inst path slot) :=
  apart.setSlot.setEntered.setPhase

theorem goesOn_apart (turn : Turn) : Apart one state (goesOn state one turn) := by
  unfold goesOn
  split
  · exact .refl
  · exact Apart.refl.setPhase
  · split
    · exact .refl
    · rename_i lock _
      unfold taken
      split
      · exact (show Apart one state (state.setLock _ (some lock)) from .refl).setPhase
      · split
        · exact (show Apart one state (state.setLock _ (some lock)) from .refl).enter
        · exact .refl
  · unfold State.raised
    split
    · exact (show Apart one state (state.setLock _ _) from .refl).setPhase
    · exact Apart.refl.setPhase
  · exact Apart.refl.enter
  · exact Apart.refl.setPhase
  · unfold State.raised
    split
    · exact (show Apart one state (state.setLock _ _) from .refl).setPhase
    · exact Apart.refl.setPhase
  · split
    · exact .refl
    · exact (show Apart one state (state.setFlock _ _) from .refl).enter
  · exact (show Apart one state (state.setLock _ _) from .refl).setPhase

theorem step_apart : Apart event.thread state (step state event) := by
  cases event with
  | enters one inst path =>
    rw [step]
    split
    · unfold enters
      split
      · exact Apart.refl.setPhase
      · split
        · exact Apart.refl.setPhase
        · exact (show Apart one state (state.register one path) from .refl).setPhase
    · exact .refl
  | goesOn one turn => exact goesOn_apart turn
  | exits one inst =>
    rw [step]
    split
    · unfold exits
      split
      · exact .refl
      · split
        · exact Apart.refl.setEntered
        · unfold leave
          split
          · exact (show Apart one state (State.setFlock _ _ _) from
              Apart.refl.setEntered.setSlot).setPhase
          · exact Apart.refl.setEntered.setSlot.setPhase
    · exact .refl

end Apart

structure Within (state after : State) (thread : Thread) : Prop where
  table : after.table thread = state.table thread
  entered : after.entered thread = state.entered thread
  entering : ∀ path rlock, after.phase thread ≠ .releasing path rlock

theorem within_enters (isIdle : state.phase thread = .idle) :
    Within state (step state (.enters thread inst path)) thread := by
  rw [step, if_pos isIdle]
  unfold enters
  split
  · exact ⟨rfl, rfl, fun _ _ => by simp [State.setPhase]⟩
  · split
    · exact ⟨rfl, rfl, fun _ _ => by simp [State.setPhase]⟩
    · exact ⟨rfl, rfl, fun _ _ => by simp [State.setPhase]⟩

theorem within_step (within : Within state after thread)
    (isOwn : event.thread = thread → ∃ turn, event = .goesOn thread turn) :
    (step after event).phase thread = .idle ∨ Within state (step after event) thread := by
  obtain ⟨table, entered, entering⟩ := within
  by_cases isThread : event.thread = thread
  · obtain ⟨turn, rfl⟩ := isOwn isThread
    rw [step]
    unfold goesOn
    split
    · exact .inl ‹_›
    · exact .inl (update_self ..)
    · split
      · exact .inr ⟨table, entered, entering⟩
      · unfold taken
        split
        · exact .inr ⟨table, entered, fun _ _ => by simp [State.setPhase]⟩
        · split
          · exact .inl (update_self ..)
          · exact .inr ⟨table, entered, entering⟩
    · exact .inl (update_self ..)
    · exact .inl (update_self ..)
    · exact .inr ⟨table, entered, fun _ _ => by simp⟩
    · exact .inl (update_self ..)
    · split
      · exact .inr ⟨table, entered, entering⟩
      · exact .inl (update_self ..)
    · exact absurd ‹_› (entering _ _)
  · obtain ⟨sameTable, sameEntered, samePhase⟩ := @step_apart after event thread (Ne.symm isThread)
    exact .inr ⟨sameTable.trans table, sameEntered.trans entered, fun path rlock => by
      rw [samePhase]
      exact entering path rlock⟩

theorem within_run (within : after.phase thread = .idle ∨ Within state after thread)
    (isOwn : ∀ event ∈ events, event.thread = thread → ∃ turn, event = .goesOn thread turn) :
    (run after events).phase thread = .idle ∨ Within state (run after events) thread := by
  induction events generalizing after with
  | nil => exact within
  | cons event rest ih =>
    refine ih ?_ fun one isIn => isOwn one (.tail _ isIn)
    rcases within with isIdle | within
    · by_cases isThread : event.thread = thread
      · obtain ⟨turn, rfl⟩ := isOwn event (.head _) isThread
        have stays : step after (.goesOn thread turn) = after := by
          rw [step]
          unfold goesOn
          rw [isIdle]
        exact .inl (stays.symm ▸ isIdle)
      · exact .inl ((step_apart thread (Ne.symm isThread)).2.2.trans isIdle)
    · exact within_step within (isOwn event (.head _))

theorem within_raises (within : Within state after thread) (notIdle : after.phase thread ≠ .idle)
    (isException closes : Bool) :
    let next := step after (.goesOn thread (.raises isException closes))
    next.phase thread = .idle ∧ next.table thread = state.table thread ∧
      next.entered thread = state.entered thread := by
  have raised (rlock : Nat) (isReleased : Bool) :
      (after.raised thread rlock isReleased).phase thread = .idle ∧
        (after.raised thread rlock isReleased).table thread = state.table thread ∧
        (after.raised thread rlock isReleased).entered thread = state.entered thread := by
    cases isReleased with
    | false | true => exact ⟨update_self .., within.table, within.entered⟩
  simp only [step]
  unfold goesOn
  cases isPhase : after.phase thread with
  | idle => exact absurd isPhase notIdle
  | acquiring inst path rlock nested =>
    exact ⟨update_self .., within.table, within.entered⟩
  | opening inst path rlock | flocking inst path rlock file => exact raised rlock _
  | releasing path rlock => exact absurd isPhase (within.entering path rlock)

theorem locks_of_sound (sound : Sound state) : Locks Clean state where
  one_holder _ _ _ := sound.alone
  filed _ := sound.filed
  not_waits _ _ := sound.not_waits
  as_was thread inst path later isException closes isIdle clean isOwn notIdle := by
    have entering := within_run (.inr (@within_enters state thread path inst isIdle)) isOwn
    obtain ⟨isRest, table, entered⟩ :=
      within_raises (entering.resolve_left notIdle) notIdle isException closes
    have isLast : run state (.enters thread inst path :: later ++
        [.goesOn thread (.raises isException closes)]) =
        step (run (step state (.enters thread inst path)) later)
          (.goesOn thread (.raises isException closes)) := List.foldl_append ..
    have isSound := sound.run clean
    rw [isLast] at isSound ⊢
    exact asWas_of_idle sound isSound isIdle isRest table entered

end Runs

/-- **One thread at most holds a path**, its file lock is held as long, no thread waits for what it
holds and an enter that raises leaves every lock as it was, in every state of every run whose
enters raise no more than an `Exception` and can close what they opened. -/
theorem locks_of_clean (events : List Event) (clean : RunOf Clean .initial events) :
    Locks Clean (run .initial events) :=
  locks_of_sound (sound_initial.run clean)

def mainThread : Thread := ⟨0, 0⟩

theorem locks_of_clean_nested :
    Locks Clean (run .initial
      [.enters mainThread 0 ['a'], .goesOn mainThread .goes, .goesOn mainThread .goes,
        .goesOn mainThread .goes, .enters mainThread 1 ['a'], .goesOn mainThread .goes]) :=
  locks_of_clean _ ⟨trivial, trivial, trivial, trivial, trivial, trivial, trivial⟩

theorem interrupt_keeps_lock :
    ¬ ∀ events, Locks (fun _ _ => True) (run .initial events) := by
  intro locks
  have asWas := (locks []).as_was mainThread 0 ['a']
    [.goesOn mainThread .goes, .goesOn mainThread .goes] false true rfl
    ⟨trivial, trivial, trivial, trivial, trivial⟩
    (fun event isIn _ => ⟨.goes, by simpa using isIn⟩) (by decide)
  exact absurd (asWas.owned ['a']) (by decide)

end Nmas.Filestore
