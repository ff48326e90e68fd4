import Nmas.Ai.Presses

/-!
Contract: one request of a kind at a time, and one for a press's key.

Owns:
- the slots a press has open and holds at each of its steps;
- what a step of one press leaves of another's locks;
- one `make` at a time for a request whose lock file is not removed under a press
  that has it open;
- one completed `make` for a key whose files are kept and whose answers are
  marked and read.
-/

namespace Nmas.Ai.Presses

open Nmas.Text
open Nmas.Os (Flock)
open Nmas.Log.Machine (run Along)

def Stage.mineHeld : Stage → Bool
  | .keyOpening | .keyLocking _ | .pruning _ | .unlinking _ _ => false
  | _ => true

def Stage.mineOpen : Stage → Bool
  | .keyOpening | .pruning _ | .unlinking _ _ => false
  | _ => true

def Stage.sameHeld : Stage → Bool
  | .reqReading | .reqJoining _ | .keyJoined _ | .marking | .keyMarking | .making | .marked _
  | .keyMarked _ | .releasing => true
  | _ => false

def Stage.sameOpen : Stage → Bool
  | .reqLocking _ | .reqReading | .reqJoining _ | .keyJoined _ | .marking | .keyMarking | .making
  | .marked _ | .keyMarked _ | .releasing => true
  | _ => false

namespace Press

def lockFile (press : Press) : Slot → Nat
  | .key _ => press.mineFile
  | .req _ => press.sameFile

def opens (press : Press) : Slot → Bool
  | .key key => press.mine = some key ∧ press.stage.mineOpen
  | .req digest => press.digest = digest ∧ press.stage.sameOpen

def holds (press : Press) : Slot → Bool
  | .key key => press.mine = some key ∧ press.stage.mineHeld
  | .req digest => press.digest = digest ∧ press.stage.sameHeld

end Press

def Owns (state : State) (job : Nat) (press : Press) : Prop :=
  ∀ slot, press.holds slot = true → (state.lock (press.lockFile slot)).exclusive = some (job, slot)

structure Locked (state : State) : Prop where
  owns : ∀ job press, state.jobs job = some press → Owns state job press
  fresh : ∀ job, state.next ≤ job → state.jobs job = none

def Linked (slot : Slot) (state : State) : Prop :=
  ∀ job press, state.jobs job = some press → press.opens slot = true →
    state.link slot = some (press.lockFile slot)

variable {state next : State} {job other : Nat} {press one two : Press} {slot : Slot} {turn : Turn}
  {stage : Stage} {key : Key}

theorem mine_open {stage : Stage} (held : stage.mineHeld) : stage.mineOpen := by
  cases stage with
  | keyOpening | keyLocking waited | pruning now | unlinking now file => cases held
  | _ => rfl

theorem same_open {stage : Stage} (held : stage.sameHeld) : stage.sameOpen := by
  cases stage with
  | reqLocking waited => rfl
  | _ => exact held

theorem opens_of_holds (holds : press.holds slot) : press.opens slot := by
  cases slot with
  | key key =>
    have held := of_decide_eq_true holds
    exact decide_eq_true ⟨held.1, mine_open held.2⟩
  | req digest =>
    have held := of_decide_eq_true holds
    exact decide_eq_true ⟨held.1, same_open held.2⟩

theorem Locked.unique (locked : Locked state) (linked : Linked slot state)
    (isOne : state.jobs job = some one) (isOther : state.jobs other = some two)
    (oneHolds : one.holds slot) (twoHolds : two.holds slot) : job = other := by
  have sameFile := (linked job one isOne (opens_of_holds oneHolds)).symm.trans
    (linked other two isOther (opens_of_holds twoHolds))
  have isLocked := locked.owns job one isOne slot oneHolds
  have alsoLocked := locked.owns other two isOther slot twoHolds
  rw [Option.some_inj.mp sameFile, alsoLocked, Option.some_inj] at isLocked
  exact (congrArg Prod.fst isLocked).symm

/-! ### A step of one press -/

structure Near (job : Nat) (removed : Option Slot) (state next : State) : Prop where
  jobs : ∀ other, other ≠ job → next.jobs other = state.jobs other
  lock : ∀ file owner, owner.1 ≠ job → (state.lock file).exclusive = some owner →
    (next.lock file).exclusive = some owner
  link : ∀ slot file, some slot ≠ removed → state.link slot = some file → next.link slot = some file
  next : state.next ≤ next.next

structure Own (state : State) (job : Nat) (press : Press) (next : State) : Prop where
  owns : ∀ after, next.jobs job = some after → Owns next job after
  opens : ∀ after slot, next.jobs job = some after → after.opens slot = true →
    (press.opens slot = true ∧ press.lockFile slot = after.lockFile slot) ∨
      next.link slot = some (after.lockFile slot)

def Press.removes (press : Press) : Option Slot :=
  match press.stage with
  | .unlinking _ (.lock slot) => some slot
  | _ => none

structure Moves (job : Nat) (press : Press) (state next : State) : Prop where
  near : Near job press.removes state next
  own : Own state job press next

structure Stage.Within (stage of : Stage) : Prop where
  mineHeld : stage.mineHeld = true → of.mineHeld = true
  mineOpen : stage.mineOpen = true → of.mineOpen = true
  sameHeld : stage.sameHeld = true → of.sameHeld = true
  sameOpen : stage.sameOpen = true → of.sameOpen = true

def Stage.within (stage of : Stage) : Bool :=
  (!stage.mineHeld || of.mineHeld) && (!stage.mineOpen || of.mineOpen) &&
    ((!stage.sameHeld || of.sameHeld) && (!stage.sameOpen || of.sameOpen))

theorem Stage.Within.intro {of : Stage} (within : stage.within of) : stage.Within of := by
  simp only [Stage.within, Bool.and_eq_true, Bool.or_eq_true, Bool.not_eq_true'] at within
  obtain ⟨⟨mineHeld, mineOpen⟩, sameHeld, sameOpen⟩ := within
  have implies {one other : Bool} (either : one = false ∨ other) : one = true → other = true := by
    intro isOne
    refine either.resolve_left fun notOne => ?_
    cases isOne.symm.trans notOne
  exact ⟨implies mineHeld, implies mineOpen, implies sameHeld, implies sameOpen⟩

theorem Stage.Within.holds (within : stage.Within press.stage)
    (holds : Press.holds { press with stage := stage } slot = true) : press.holds slot = true := by
  cases slot with
  | key key =>
    have held := of_decide_eq_true holds
    exact decide_eq_true ⟨held.1, within.mineHeld held.2⟩
  | req digest =>
    have held := of_decide_eq_true holds
    exact decide_eq_true ⟨held.1, within.sameHeld held.2⟩

theorem Stage.Within.opens (within : stage.Within press.stage)
    (opens : Press.opens { press with stage := stage } slot = true) : press.opens slot = true := by
  cases slot with
  | key key =>
    have isOpen := of_decide_eq_true opens
    exact decide_eq_true ⟨isOpen.1, within.mineOpen isOpen.2⟩
  | req digest =>
    have isOpen := of_decide_eq_true opens
    exact decide_eq_true ⟨isOpen.1, within.sameOpen isOpen.2⟩

theorem Moves.goes {after : Press} (near : Near job press.removes state next)
    (owns : ∀ slot, after.holds slot →
      (next.lock (after.lockFile slot)).exclusive = some (job, slot))
    (opens : ∀ slot, after.opens slot →
      (press.opens slot ∧ press.lockFile slot = after.lockFile slot) ∨
        next.link slot = some (after.lockFile slot)) :
    Moves job press state (next.setPress job after) where
  near :=
    { near with
      jobs := fun other isOther => by
        rw [← near.jobs other isOther]
        exact Function.update_of_ne isOther _ _ }
  own := by
    constructor
    · intro one isOne
      rw [State.setPress_job, Option.some_inj] at isOne
      subst isOne
      exact owns
    · intro one slot isOne isOpen
      rw [State.setPress_job, Option.some_inj] at isOne
      subst isOne
      exact opens slot isOpen

theorem Moves.on (near : Near job press.removes state next) (owned : Owns state job press)
    (sameLock : next.lock = state.lock) (within : stage.Within press.stage) :
    Moves job press state (next.setPress job { press with stage := stage }) := by
  refine Moves.goes near (fun slot holds => ?_) fun slot isOpen =>
    .inl ⟨within.opens isOpen, ?_⟩
  · have isLocked := owned slot (within.holds holds)
    rw [← sameLock] at isLocked
    cases slot <;> exact isLocked
  · cases slot <;> rfl

theorem Moves.stops (near : Near job press.removes state next) :
    Moves job press state (next.ends job) where
  near :=
    { near with
      jobs := fun other isOther => by
        rw [← near.jobs other isOther]
        exact Function.update_of_ne isOther _ _ }
  own := by
    constructor
    · intro one isOne
      rw [State.ends_job] at isOne
      cases isOne
    · intro one slot isOne
      rw [State.ends_job] at isOne
      cases isOne

theorem near_refl {removed : Option Slot} : Near job removed state state :=
  ⟨fun _ _ => rfl, fun _ _ _ held => held, fun _ _ _ isLink => isLink, le_rfl⟩

theorem Moves.stays (isJob : state.jobs job = some press) (owned : Owns state job press) :
    Moves job press state state where
  near := near_refl
  own := by
    constructor
    · intro one isOne
      cases isJob.symm.trans isOne
      exact owned
    · intro one slot isOne isOpen
      cases isJob.symm.trans isOne
      exact .inl ⟨isOpen, rfl⟩

namespace Near

variable {removed : Option Slot}

theorem mark {marker : Marker} (near : Near job removed state next) :
    Near job removed state (next.mark slot marker) :=
  { near with }

end Near

theorem near_openLock {removed : Option Slot} : Near job removed state (openLock state slot).1 := by
  unfold openLock
  split
  · exact near_refl
  · rename_i isNone
    refine ⟨fun _ _ => rfl, fun _ _ _ held => held, fun one file _ isLink => ?_, le_rfl⟩
    have isOther : one ≠ slot := by
      rintro rfl
      cases isNone.symm.trans isLink
    exact (Function.update_of_ne isOther _ _).trans isLink

theorem openLock_link : (openLock state slot).1.link slot = some (openLock state slot).2 := by
  unfold openLock
  split
  · assumption
  · exact Function.update_self ..

theorem openLock_lock : (openLock state slot).1.lock = state.lock := by
  unfold openLock
  split <;> rfl

theorem lock_taken {file : Nat} {lock : Flock (Nat × Slot)}
    (isLocked : (state.lock file).lockExclusive (job, slot) = some lock) :
    (state.setLock file lock).lock file = lock ∧ lock.exclusive = some (job, slot) ∧
      ∀ one owner, (state.lock one).exclusive = some owner →
        ((state.setLock file lock).lock one).exclusive = some owner := by
  obtain ⟨isFree, isOwn⟩ := Flock.lockExclusive_some isLocked
  refine ⟨Function.update_self .., isOwn, fun one owner held => ?_⟩
  have isOther : one ≠ file := by
    rintro rfl
    cases isFree.symm.trans held
  have same : (state.setLock file lock).lock one = state.lock one :=
    Function.update_of_ne isOther _ _
  rw [same]
  exact held

theorem near_taken {removed : Option Slot} {file : Nat} {lock : Flock (Nat × Slot)}
    (isLocked : (state.lock file).lockExclusive (job, slot) = some lock) :
    Near job removed state (state.setLock file lock) :=
  { near_refl with lock := fun one owner _ held => (lock_taken isLocked).2.2 one owner held }

theorem lock_given {file : Nat} {owner : Nat × Slot} {one : Nat} (isOther : owner ≠ (job, slot))
    (held : (state.lock one).exclusive = some owner) :
    ((state.setLock file ((state.lock file).unlock (job, slot))).lock one).exclusive =
      some owner := by
  by_cases isFile : one = file
  · subst isFile
    have same : (state.setLock one ((state.lock one).unlock (job, slot))).lock one =
        (state.lock one).unlock (job, slot) := Function.update_self ..
    rw [same]
    exact Flock.unlock_exclusive held isOther
  · have same : (state.setLock file ((state.lock file).unlock (job, slot))).lock one =
        state.lock one := Function.update_of_ne isFile _ _
    rw [same]
    exact held

theorem near_given {removed : Option Slot} {file : Nat} :
    Near job removed state (state.setLock file ((state.lock file).unlock (job, slot))) :=
  { near_refl with
    lock := fun _ _ isOther held =>
      lock_given (fun same => isOther (congrArg Prod.fst same)) held }

theorem Moves.takes {file : Nat} {lock : Flock (Nat × Slot)} (owned : Owns state job press)
    (isLocked : (state.lock file).lockExclusive (job, slot) = some lock)
    (isFile : press.lockFile slot = file) (isOpen : press.opens slot)
    (held : ∀ other, Press.holds { press with stage := stage } other = true →
      other = slot ∨ press.holds other = true) (within : ∀ other,
      Press.opens { press with stage := stage } other = true → press.opens other = true) :
    Moves job press state
      ((state.setLock file lock).setPress job { press with stage := stage }) := by
  obtain ⟨isLock, isOwn, others⟩ := lock_taken isLocked
  refine Moves.goes (near_taken isLocked) (fun other holds => ?_) fun other isOpen =>
    .inl ⟨within other isOpen, ?_⟩
  · rcases held other holds with rfl | before
    · have same : Press.lockFile { press with stage := stage } other = file := by
        rw [← isFile]
        cases other <;> rfl
      rw [same, isLock]
      exact isOwn
    · have kept := others _ _ (owned other before)
      cases other <;> exact kept
  · cases other <;> rfl

theorem Moves.gives {file : Nat} (owned : Owns state job press) (within : stage.Within press.stage)
    (given : Press.holds { press with stage := stage } slot = false) :
    Moves job press state
      ((state.setLock file ((state.lock file).unlock (job, slot))).setPress job
        { press with stage := stage }) := by
  refine Moves.goes near_given (fun other holds => ?_) fun other isOpen =>
    .inl ⟨within.opens isOpen, ?_⟩
  · have isOther : (job, other) ≠ (job, slot) := by
      intro same
      have isSlot : other = slot := congrArg Prod.snd same
      rw [isSlot, given] at holds
      cases holds
    have kept := @lock_given _ _ _ file _ _ isOther (owned other (within.holds holds))
    cases other <;> exact kept
  · cases other <;> rfl

theorem pressStep_moves (isJob : state.jobs job = some press) (owned : Owns state job press) :
    Moves job press state (pressStep state job press turn) := by
  have on {next : State} {stage : Stage} (near : Near job press.removes state next)
      (sameLock : next.lock = state.lock) (within : stage.within press.stage = true) :=
    Moves.on near owned sameLock (.intro within)
  have stays := Moves.stays isJob owned
  obtain ⟨process, mine, digest, scope, mineFile, sameFile, stage⟩ := press
  cases stage with
  | keyOpening =>
    cases mine with
    | none => exact stays
    | some key =>
      simp only [pressStep]
      split
      · exact on near_refl rfl rfl
      · refine Moves.goes near_openLock (fun slot holds => ?_) fun slot isOpen => ?_
        · cases slot with
          | key other | req other => cases (of_decide_eq_true holds).2
        · cases slot with
          | key other =>
            have same : some key = some other := (of_decide_eq_true isOpen).1
            cases same
            exact .inr openLock_link
          | req other => cases (of_decide_eq_true isOpen).2
  | keyLocking waited =>
    cases mine with
    | none => exact stays
    | some key =>
      simp only [pressStep]
      split
      · rename_i lock isLocked
        refine Moves.takes owned isLocked rfl (decide_eq_true ⟨rfl, rfl⟩) ?_ ?_
        · intro other holds
          cases other with
          | key other =>
            have same : some key = some other := (of_decide_eq_true holds).1
            cases same
            exact .inl rfl
          | req other => cases (of_decide_eq_true holds).2
        · intro other isOpen
          cases other with
          | key other => exact isOpen
          | req other => cases (of_decide_eq_true isOpen).2
      · split
        · exact on near_refl rfl rfl
        · exact on near_refl rfl rfl
  | keyReading =>
    cases mine with
    | none => exact stays
    | some key =>
      simp only [pressStep]
      split
      · split
        · exact on near_refl rfl rfl
        · split
          · exact on near_refl rfl rfl
          · exact on near_refl rfl rfl
      · exact on near_refl rfl rfl
  | keyJoining call | reqReading | reqJoining call =>
    simp only [pressStep]
    split
    · exact on near_refl rfl rfl
    · exact on near_refl rfl rfl
  | reqOpening =>
    simp only [pressStep]
    split
    · cases mine with
      | none | some key => exact on near_refl rfl rfl
    · refine Moves.goes near_openLock (fun slot holds => ?_) fun slot isOpen => ?_
      · cases slot with
        | key other =>
          have held : Press.holds ⟨process, mine, digest, scope, mineFile, sameFile, .reqOpening⟩
              (.key other) = true := holds
          rw [openLock_lock]
          exact owned _ held
        | req other => cases (of_decide_eq_true holds).2
      · cases slot with
        | key other => exact .inl ⟨isOpen, rfl⟩
        | req other =>
          have same : digest = other := (of_decide_eq_true isOpen).1
          subst same
          exact .inr openLock_link
  | reqLocking waited =>
    simp only [pressStep]
    split
    · rename_i lock isLocked
      have holdsEither (stage : Stage) (isMine : stage.mineHeld) :
          ∀ other, Press.holds ⟨process, mine, digest, scope, mineFile, sameFile, stage⟩ other =
            true → other = .req digest ∨ Press.holds
              ⟨process, mine, digest, scope, mineFile, sameFile, .reqLocking waited⟩ other =
                true := by
        intro other holds
        cases other with
        | key other => exact .inr (decide_eq_true ⟨(of_decide_eq_true holds).1, rfl⟩)
        | req other =>
          have same : digest = other := (of_decide_eq_true holds).1
          subst same
          exact .inl rfl
      have opensBoth (stage : Stage) :
          ∀ other, Press.opens ⟨process, mine, digest, scope, mineFile, sameFile, stage⟩ other =
            true → Press.opens
              ⟨process, mine, digest, scope, mineFile, sameFile, .reqLocking waited⟩ other =
                true := by
        intro other isOpen
        cases other with
        | key other | req other => exact decide_eq_true ⟨(of_decide_eq_true isOpen).1, rfl⟩
      cases waited with
      | true | false =>
        exact Moves.takes owned isLocked rfl (decide_eq_true ⟨rfl, rfl⟩) (holdsEither _ rfl)
          (opensBoth _)
    · split
      · cases mine with
        | none | some key => exact on near_refl rfl rfl
      · exact on near_refl rfl rfl
  | keyJoined call | keyMarking | keyMarked call =>
    cases mine with
    | none => exact on near_refl rfl rfl
    | some key =>
      simp only [pressStep]
      split
      · exact on near_refl rfl rfl
      · exact on near_refl.mark rfl rfl
  | marking | marked call =>
    simp only [pressStep]
    split
    · exact on near_refl rfl rfl
    · exact on near_refl.mark rfl rfl
  | making =>
    simp only [pressStep]
    split
    · exact on { near_refl with } rfl rfl
    · exact on near_refl rfl rfl
    · exact stays
  | releasing =>
    cases mine with
    | none => exact Moves.gives owned (.intro rfl) (decide_eq_false fun held => by cases held.2)
    | some key => exact Moves.gives owned (.intro rfl) (decide_eq_false fun held => by cases held.2)
  | keyReleasing =>
    cases mine with
    | none => exact stays
    | some key => exact Moves.gives owned (.intro rfl) (decide_eq_false fun held => by cases held.2)
  | pruning now => exact Moves.stops near_refl
  | unlinking now file =>
    cases file with
    | marker slot => exact on { near_refl with } rfl rfl
    | lock slot =>
      refine on ⟨fun _ _ => rfl, fun _ _ _ held => held, fun other file isOther isLink => ?_,
        le_rfl⟩ rfl rfl
      have notRemoved : other ≠ slot := fun same => isOther (congrArg some same)
      exact (Function.update_of_ne notRemoved _ _).trans isLink

/-! ### Every step -/

theorem Locked.changes {removed : Option Slot} (locked : Locked state)
    (near : Near job removed state next)
    (owns : ∀ after, next.jobs job = some after → Owns next job after)
    (fresh : next.next ≤ job → next.jobs job = none) : Locked next where
  owns one press isPress := by
    by_cases isOwn : one = job
    · subst isOwn
      exact owns press isPress
    · rw [near.jobs one isOwn] at isPress
      intro slot holds
      exact near.lock _ (one, slot) isOwn (locked.owns one press isPress slot holds)
  fresh one isLater := by
    by_cases isOwn : one = job
    · subst isOwn
      exact fresh isLater
    · rw [near.jobs one isOwn]
      exact locked.fresh one (near.next.trans isLater)

theorem goesOn_moves (locked : Locked state) (isJob : state.jobs job = some press) :
    Moves job press state (step state (.goesOn job turn)) := by
  simp only [step, isJob]
  exact pressStep_moves isJob (locked.owns job press isJob)

theorem checkStep_moves {file : File} (isJob : state.jobs job = some press)
    (owned : Owns state job press) : Moves job press state (checkStep state job press file) := by
  unfold checkStep
  split
  · rename_i now isPruning
    split
    · refine Moves.on near_refl owned rfl ?_
      rw [isPruning]
      exact .intro rfl
    · exact Moves.stays isJob owned
  · exact Moves.stays isJob owned

theorem die_some {process : Nat} (isPress : (die state process).jobs job = some press) :
    state.jobs job = some press ∧ press.process ≠ process := by
  obtain ⟨isOld, stays⟩ := Option.filter_eq_some_iff.mp isPress
  exact ⟨isOld, of_decide_eq_true stays⟩

theorem begin_near {process : Nat} {mine : Option Key} {digest scope : Str} :
    Near state.next none state (step state (.once process mine digest scope)) where
  jobs _ isOther := Function.update_of_ne isOther _ _
  lock _ _ _ held := held
  link _ _ _ isLink := isLink
  next := Nat.le_succ _

theorem begin_press {process : Nat} {mine : Option Key} {digest scope : Str}
    (isPress : (step state (.once process mine digest scope)).jobs state.next = some press) :
    press.mine = mine ∧ (press.stage = .keyOpening ∨ press.stage = .reqOpening ∧ mine = none) ∧
      ∀ slot, press.opens slot = false := by
  have isNew : (step state (.once process mine digest scope)).jobs state.next =
      some ⟨process, mine, digest, scope, 0, 0,
        if mine.isSome then .keyOpening else .reqOpening⟩ := Function.update_self ..
  cases isNew.symm.trans isPress
  cases mine with
  | none =>
    refine ⟨rfl, .inr ⟨rfl, rfl⟩, fun slot => ?_⟩
    cases slot with
    | key other => simp [Press.opens]
    | req other => simp [Press.opens, Stage.sameOpen]
  | some key =>
    refine ⟨rfl, .inl rfl, fun slot => ?_⟩
    cases slot with
    | key other => simp [Press.opens, Stage.mineOpen]
    | req other => simp [Press.opens, Stage.sameOpen]

theorem step_locked (state : State) (event : Event) (locked : Locked state) :
    Locked (step state event) := by
  cases event with
  | once process mine digest scope =>
    refine locked.changes begin_near (fun press isPress slot holds => ?_) fun isLater => ?_
    · cases ((begin_press isPress).2.2 slot).symm.trans (opens_of_holds holds)
    · exact absurd isLater (Nat.not_succ_le_self _)
  | goesOn job turn =>
    cases isJob : state.jobs job with
    | none =>
      simp only [step, isJob]
      exact locked
    | some press =>
      have moves := @goesOn_moves _ _ _ turn locked isJob
      refine locked.changes moves.near moves.own.owns fun isLater => ?_
      cases (locked.fresh job (moves.near.next.trans isLater)).symm.trans isJob
  | checks job file =>
    cases isJob : state.jobs job with
    | none =>
      simp only [step, isJob]
      exact locked
    | some press =>
      have moves := @checkStep_moves _ _ _ file isJob (locked.owns job press isJob)
      simp only [step, isJob]
      refine locked.changes moves.near moves.own.owns fun isLater => ?_
      cases (locked.fresh job (moves.near.next.trans isLater)).symm.trans isJob
  | clock now => exact ⟨locked.owns, locked.fresh⟩
  | dies process =>
    refine ⟨fun job press isPress slot holds => ?_, fun job isLater => ?_⟩
    · obtain ⟨isOld, stays⟩ := die_some isPress
      refine Flock.drop_exclusive (locked.owns job press isOld slot holds) ?_
      unfold ofProcess
      rw [isOld]
      simpa using stays
    · show (state.jobs job).filter _ = none
      rw [locked.fresh job isLater]
      rfl

/-- **The condition.** A prune removes the slot's lock file while no press has it open. -/
def Spares (slot : Slot) (state : State) : Event → Prop
  | .goesOn job _ =>
    (state.jobs job).bind Press.removes = some slot →
      ∀ other < state.next, ∀ press ∈ state.jobs other, press.opens slot = false
  | _ => True

theorem step_linked {event : Event} (locked : Locked state) (linked : Linked slot state)
    (spares : Spares slot state event) : Linked slot (step state event) := by
  have isOld {one : Nat} {press : Press} (isPress : state.jobs one = some press) :
      one < state.next := by
    by_contra isLater
    cases (locked.fresh one (Nat.le_of_not_lt isLater)).symm.trans isPress
  have moved {job : Nat} {press : Press} {next : State} (isJob : state.jobs job = some press)
      (moves : Moves job press state next)
      (spares : press.removes = some slot → ∀ other < state.next, ∀ press ∈ state.jobs other,
        press.opens slot = false) : Linked slot next := by
    have link {file other : Nat} {two : Press} (isOther : state.jobs other = some two)
        (isOpen : two.opens slot = true) (isLink : state.link slot = some file) :
        next.link slot = some file := by
      refine moves.near.link slot file (fun isRemoved => ?_) isLink
      cases (spares isRemoved.symm other (isOld isOther) two isOther).symm.trans isOpen
    intro other after isAfter isOpen
    by_cases isOwn : other = job
    · subst isOwn
      rcases moves.own.opens after slot isAfter isOpen with ⟨before, sameFile⟩ | isNew
      · rw [← sameFile]
        exact link isJob before (linked other press isJob before)
      · exact isNew
    · rw [moves.near.jobs other isOwn] at isAfter
      exact link isAfter isOpen (linked other after isAfter isOpen)
  cases event with
  | once process mine digest scope =>
    intro other after isAfter isOpen
    by_cases isNew : other = state.next
    · subst isNew
      cases ((begin_press isAfter).2.2 slot).symm.trans isOpen
    · rw [begin_near.jobs other isNew] at isAfter
      exact linked other after isAfter isOpen
  | goesOn job turn =>
    cases isJob : state.jobs job with
    | none =>
      simp only [step, isJob]
      exact linked
    | some press =>
      refine moved isJob (goesOn_moves locked isJob) fun isRemoved => spares ?_
      rw [isJob]
      exact isRemoved
  | checks job file =>
    cases isJob : state.jobs job with
    | none =>
      simp only [step, isJob]
      exact linked
    | some press =>
      simp only [step, isJob]
      have either : checkStep state job press file = state ∨ press.removes = none := by
        unfold checkStep
        split
        · rename_i now isPruning
          refine .inr ?_
          unfold Press.removes
          rw [isPruning]
        · exact .inl rfl
      rcases either with same | removesNone
      · rw [same]
        exact linked
      · refine moved isJob (checkStep_moves isJob (locked.owns job press isJob)) fun isRemoved => ?_
        cases removesNone.symm.trans isRemoved
  | clock now => exact linked
  | dies process =>
    intro job press isPress isOpen
    exact linked job press (die_some isPress).1 isOpen

end Nmas.Ai.Presses
