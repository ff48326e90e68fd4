import Nmas.Ai.MadeOnce

/-!
Contract: a press that waits is handed a call that was made while it waited.

Owns: `Watched`, the presses beside the calls made while each waited for its request's
slot; the condition under which no slot names an older call to a press that waits
(`Current`); and the runs.

Does not own: what a press is handed under its own key.
-/

namespace Nmas.Ai.Presses

open Nmas.Text Option
open Nmas.Os (Flock)
open Nmas.Log.Machine (run Along)
open Function

def Press.waits (press : Press) (digest : Str) : Bool :=
  press.digest = digest ∧ press.stage = .reqLocking true

/-- The call a press joins by its request's slot. -/
def Stage.joins : Stage → Option Str
  | .reqJoining call | .keyJoined call => some call
  | _ => none

def Stage.cleared : Stage → Bool
  | .keyMarking | .making | .marked _ => true
  | _ => false

/-- A call that was made and that the request's slot will name. -/
def Stage.ended : Stage → Bool
  | .marked call => call ≠ []
  | _ => false

/-- The presses, and the calls made for each one's request while it waited. -/
structure Watched where
  state : State
  waitedOut : Nat → List Str

def hears (watched : Watched) : Event → Nat → List Str
  | .goesOn maker (.makes call), job =>
    if (watched.state.jobs maker).any (fun press =>
        press.stage = .making ∧ (watched.state.jobs job).any (·.waits press.digest)) then
      watched.waitedOut job ++ [call]
    else watched.waitedOut job
  | _, job => watched.waitedOut job

def watch (watched : Watched) (event : Event) : Watched :=
  ⟨step watched.state event, hears watched event⟩

/-- Every press that joins by its request's slot joins a call made while it waited. -/
def JoinsWaited (digest : Str) (watched : Watched) : Prop :=
  ∀ job press call, watched.state.jobs job = some press → press.digest = digest →
    press.stage.joins = some call → call ∈ watched.waitedOut job

def named (state : State) (digest : Str) : Option Str :=
  doneCall ((state.marker (.req digest)).map Prod.fst)

def anyPress (state : State) (digest : Str) (holds : Press → Bool) : Bool :=
  (List.range state.next).any fun job =>
    (state.jobs job).any fun press => press.digest = digest && holds press

/-- A call of the request has ended, and the slot names it or will. -/
def Ended (digest : Str) (state : State) : Prop :=
  anyPress state digest (·.stage.ended) = true ∨
    (named state digest).isSome = true ∧ anyPress state digest (·.stage = .marking) = false

/-- Every press that waits, and stays, waited for the call the slot names. -/
def Known (digest : Str) (watched : Watched) (stays : Press → Bool) : Prop :=
  ∀ call ∈ named watched.state digest, ∀ job < watched.state.next,
    ∀ press ∈ watched.state.jobs job, press.waits digest = true → stays press = true →
      call ∈ watched.waitedOut job

/-- **The condition.** A press begins to wait while no call of its request has ended that the slot
names or will; a press that has claimed the slot does not end, nor fail to mark it, before it is
marked running, where the slot names a call another waits beside; and no prune removes the lock
file of a slot that is open. -/
def Current (digest : Str) (watched : Watched) (event : Event) : Prop :=
  Spares (.req digest) watched.state event ∧
  match event with
  | .goesOn job turn => ∀ press ∈ watched.state.jobs job, press.digest = digest →
      (press.stage = .reqLocking false →
        (watched.state.lock press.sameFile).lockExclusive (job, .req digest) = none →
          ¬ Ended digest watched.state) ∧
      (press.stage = .marking → turn = .fails → Known digest watched fun _ => true)
  | .dies process =>
    anyPress watched.state digest (fun press => press.process = process ∧ press.stage = .marking) =
      true → Known digest watched fun press => press.process ≠ process
  | _ => True

def Marking (digest : Str) (state : State) : Prop :=
  ∃ job press, state.jobs job = some press ∧ press.digest = digest ∧ press.stage = .marking

structure Waits (digest : Str) (state : State) (heard : List Str) : Prop where
  named : ∀ call, named state digest = some call → call ∈ heard ∨ Marking digest state
  ended : ∀ job press call, state.jobs job = some press → press.digest = digest →
    press.stage = .marked call → call ≠ [] → call ∈ heard

structure Owed (digest : Str) (state : State) (heard : List Str) (press : Press) : Prop where
  cleared : press.stage.cleared = true → named state digest = none
  waits : press.stage = .reqLocking true → Waits digest state heard
  reads : press.stage = .reqReading → ∀ call, named state digest = some call → call ∈ heard
  joins : ∀ call, press.stage.joins = some call → call ∈ heard

structure Heard (digest : Str) (watched : Watched) : Prop where
  locked : Locked watched.state
  linked : Linked (.req digest) watched.state
  owed : ∀ job press, watched.state.jobs job = some press → press.digest = digest →
    Owed digest watched.state (watched.waitedOut job) press

variable {state next : State} {watched : Watched} {job other : Nat} {press one : Press}
  {turn : Turn} {digest : Str} {heard : List Str} {stage : Stage}

theorem Heard.joinsWaited (heard : Heard digest watched) : JoinsWaited digest watched :=
  fun job press call isJob isDigest => (heard.owed job press isJob isDigest).joins call

theorem anyPress_iff (locked : Locked state) {holds : Press → Bool} :
    anyPress state digest holds ↔
      ∃ job press, state.jobs job = some press ∧ press.digest = digest ∧ holds press := by
  unfold anyPress
  rw [List.any_eq_true]
  constructor
  · rintro ⟨job, -, isAny⟩
    obtain ⟨press, isJob, isHeld⟩ := (any_eq_true _ _).mp isAny
    rw [Bool.and_eq_true] at isHeld
    exact ⟨job, press, isJob, of_decide_eq_true isHeld.1, isHeld.2⟩
  · rintro ⟨job, press, isJob, isDigest, isHeld⟩
    refine ⟨job, List.mem_range.mpr ?_, (any_eq_true _ _).mpr ⟨press, isJob, ?_⟩⟩
    · by_contra isLater
      cases (locked.fresh job (Nat.le_of_not_lt isLater)).symm.trans isJob
    · rw [Bool.and_eq_true]
      exact ⟨decide_eq_true isDigest, isHeld⟩

theorem Heard.unique (heard : Heard digest watched) (isJob : watched.state.jobs job = some press)
    (isOther : watched.state.jobs other = some one) (isDigest : press.digest = digest)
    (otherDigest : one.digest = digest) (held : press.stage.sameHeld)
    (otherHeld : one.stage.sameHeld) : other = job :=
  heard.locked.unique heard.linked isOther isJob (decide_eq_true ⟨otherDigest, otherHeld⟩)
    (decide_eq_true ⟨isDigest, held⟩)

theorem not_marking_of_free (heard : Heard digest watched)
    (isJob : watched.state.jobs job = some press) (isDigest : press.digest = digest)
    (isLocking : press.stage.sameOpen) {lock : Flock (Nat × Slot)}
    (isLocked : (watched.state.lock press.sameFile).lockExclusive (job, .req digest) = some lock) :
    ¬ Marking digest watched.state := by
  rintro ⟨other, one, isOther, otherDigest, isMarking⟩
  have oneHolds : one.holds (.req digest) := by
    refine decide_eq_true ⟨otherDigest, ?_⟩
    rw [isMarking]
    rfl
  have isOwn := heard.locked.owns other one isOther _ oneHolds
  have oneLink := heard.linked other one isOther (opens_of_holds oneHolds)
  have ownLink := heard.linked job press isJob (decide_eq_true ⟨isDigest, isLocking⟩)
  have sameFile : one.sameFile = press.sameFile := some_inj.mp (oneLink.symm.trans ownLink)
  have isFree := (Flock.lockExclusive_some isLocked).1
  have isHeld : (watched.state.lock press.sameFile).exclusive = some (other, .req digest) := by
    rw [← sameFile]
    exact isOwn
  cases isFree.symm.trans isHeld

/-! ### A step of one press -/

/-- A stage that is owed nothing of its request's slot. -/
def Stage.idle : Stage → Bool
  | .reqLocking true | .reqReading | .reqJoining _ | .keyJoined _ | .keyMarking | .making
  | .marked _ => false
  | _ => true

theorem Stage.not_idle_of_cleared (cleared : stage.cleared) : stage.idle = false := by
  cases stage <;> first | rfl | cases cleared

theorem Stage.not_idle_of_joins {call : Str} (joins : stage.joins = some call) :
    stage.idle = false := by
  cases stage <;> first | rfl | cases joins

theorem Owed.of_idle (idle : press.stage.idle) : Owed digest state heard press := by
  have absurd {P : Prop} (notIdle : press.stage.idle = false) : P := by
    cases idle.symm.trans notIdle
  refine ⟨fun cleared => absurd (Stage.not_idle_of_cleared cleared), fun waits => ?_, fun reads => ?_,
    fun call joins => absurd (Stage.not_idle_of_joins joins)⟩
  · exact absurd (congrArg Stage.idle waits)
  · exact absurd (congrArg Stage.idle reads)

structure Quiet (digest : Str) (watched : Watched) (job : Nat) (next : State) : Prop where
  named : named next digest = none ∨ named next digest = named watched.state digest
  marks : ∀ press, watched.state.jobs job = some press → press.digest = digest →
    press.stage = .marking → Presses.named next digest = none ∨ Known digest watched fun _ => true
  notMarked : ∀ after call, next.jobs job = some after → after.stage ≠ .marked call
  owed : ∀ after, next.jobs job = some after → after.digest = digest →
    Owed digest next (watched.waitedOut job) after

theorem Heard.changes {removed : Option Slot} (heard : Heard digest watched)
    (near : Near job removed watched.state next) (quiet : Quiet digest watched job next) (locked : Locked next)
    (linked : Linked (.req digest) next) : Heard digest ⟨next, watched.waitedOut⟩ where
  locked := locked
  linked := linked
  owed one after isAfter isDigest := by
    by_cases isOwn : one = job
    · subst isOwn
      exact quiet.owed after isAfter isDigest
    · have isOld : watched.state.jobs one = some after := (near.jobs one isOwn).symm.trans isAfter
      have owed := heard.owed one after isOld isDigest
      have same {call : Str} (isNamed : named next digest = some call) :
          named watched.state digest = some call := by
        rcases quiet.named with isNone | isSame
        · cases isNone.symm.trans isNamed
        · exact isSame.symm.trans isNamed
      refine ⟨fun cleared => ?_, fun waits => ⟨fun call isNamed => ?_, ?_⟩, ?_, owed.joins⟩
      · rcases quiet.named with isNone | isSame
        · exact isNone
        · exact isSame.trans (owed.cleared cleared)
      · rcases (owed.waits waits).named call (same isNamed) with isHeard | ⟨two, marker, isTwo, ofDigest, marking⟩
        · exact .inl isHeard
        · by_cases isMarker : two = job
          · subst isMarker
            rcases quiet.marks marker isTwo ofDigest marking with isNone | known
            · cases isNone.symm.trans isNamed
            · refine .inl (known call (same isNamed) one ?_ after isOld ?_ rfl)
              · by_contra isLater
                cases (heard.locked.fresh one (Nat.le_of_not_lt isLater)).symm.trans isOld
              · exact decide_eq_true ⟨isDigest, waits⟩
          · exact .inr ⟨two, marker, (near.jobs two isMarker).trans isTwo, ofDigest, marking⟩
      · intro two marker call isTwo ofDigest marked
        by_cases isMarker : two = job
        · subst isMarker
          exact absurd marked (quiet.notMarked marker call isTwo)
        · rw [near.jobs two isMarker] at isTwo
          exact (owed.waits waits).ended two marker call isTwo ofDigest marked
      · intro reads call isNamed
        exact owed.reads reads call (same isNamed)

theorem named_mark_other {slot : Slot} {marker : Marker} (isOther : slot ≠ .req digest) :
    named (state.mark slot marker) digest = named state digest := by
  have same : (state.mark slot marker).marker (.req digest) = state.marker (.req digest) :=
    update_of_ne isOther.symm _ _
  unfold named
  rw [same]

theorem named_mark {marker : Marker} :
    named (state.mark (.req digest) marker) digest = doneCall (some marker) := by
  have same : (state.mark (.req digest) marker).marker (.req digest) = some (marker, state.now) :=
    update_self ..
  unfold named
  rw [same]
  rfl

theorem named_openLock {slot : Slot} : named (openLock state slot).1 digest = named state digest := by
  unfold named
  rw [openLock_kept.2]

theorem named_unlink {file : File} : named (state.unlink file) digest = none ∨
    named (state.unlink file) digest = named state digest := by
  cases file with
  | lock slot => exact .inr rfl
  | marker slot =>
    by_cases isSlot : slot = .req digest
    · refine .inl ?_
      have isNone : (state.unlink (.marker slot)).marker (.req digest) = none := by
        rw [← isSlot]
        exact update_self ..
      unfold named
      rw [isNone]
      rfl
    · refine .inr ?_
      have same : (state.unlink (.marker slot)).marker (.req digest) = state.marker (.req digest) :=
        update_of_ne (Ne.symm isSlot) _ _
      unfold named
      rw [same]

theorem Waits.on {after : Press} (waits : Waits digest state heard)
    (isJob : state.jobs job = some press) (notMarking : press.stage ≠ .marking)
    (notMarked : ∀ call, after.stage ≠ .marked call) :
    Waits digest (state.setPress job after) heard where
  named call isNamed := by
    rcases waits.named call isNamed with isHeard | ⟨two, marker, isTwo, ofDigest, marking⟩
    · exact .inl isHeard
    · refine .inr ⟨two, marker, ?_, ofDigest, marking⟩
      have isOther : two ≠ job := by
        rintro rfl
        cases isJob.symm.trans isTwo
        exact notMarking marking
      exact (update_of_ne isOther _ _).trans isTwo
  ended two marker call isTwo ofDigest marked := by
    by_cases isOwn : two = job
    · subst isOwn
      rw [State.setPress_job, some_inj] at isTwo
      subst isTwo
      exact absurd marked (notMarked call)
    · have isOld : state.jobs two = some marker := (update_of_ne isOwn _ _).symm.trans isTwo
      exact waits.ended two marker call isOld ofDigest marked

theorem waits_of_not_ended (locked : Locked state) (notEnded : ¬ Ended digest state) :
    Waits digest state heard where
  named call isNamed := by
    by_contra notKnown
    refine notEnded (.inr ⟨by rw [isNamed]; rfl, ?_⟩)
    rw [Bool.eq_false_iff]
    intro isAny
    obtain ⟨two, marker, isTwo, ofDigest, marking⟩ := (anyPress_iff locked).mp isAny
    exact notKnown (.inr ⟨two, marker, isTwo, ofDigest, of_decide_eq_true marking⟩)
  ended two marker call isTwo ofDigest marked notNil := by
    refine absurd (.inl ((anyPress_iff locked).mpr ⟨two, marker, isTwo, ofDigest, ?_⟩)) notEnded
    rw [marked]
    exact decide_eq_true notNil

theorem left_idle {now : Clock} : (press.left now).idle := by
  unfold Press.left
  split <;> rfl

theorem pressStep_quiet (heard : Heard digest watched) (isJob : watched.state.jobs job = some press)
    (current : Current digest watched (.goesOn job turn))
    (notMakes : press.stage = .making → ∀ call, turn ≠ .makes call)
    (notAnswers : ∀ call, press.stage = .marked call → turn = .fails ∨ press.digest ≠ digest) :
    Quiet digest watched job (pressStep watched.state job press turn) := by
  have owed := heard.owed job press isJob
  have begins := fun isDigest => (current.2 press isJob isDigest).1
  have marking := fun isDigest => (current.2 press isJob isDigest).2
  have free := fun isDigest => @not_marking_of_free _ _ _ _ heard isJob isDigest
  have locked := heard.locked
  have goes {next : State} {after : Press}
      (isNamed : named next digest = none ∨ named next digest = named watched.state digest)
      (notMarked : ∀ call, after.stage ≠ .marked call)
      (notMarking : press.stage ≠ .marking)
      (own : after.digest = digest →
        Owed digest (next.setPress job after) (watched.waitedOut job) after) :
      Quiet digest watched job (next.setPress job after) := by
    refine ⟨isNamed, fun one isOne _ isMarking => ?_, fun one call isOne => ?_, fun one isOne => ?_⟩
    · cases isJob.symm.trans isOne
      exact absurd isMarking notMarking
    · rw [State.setPress_job, some_inj] at isOne
      subst isOne
      exact notMarked call
    · rw [State.setPress_job, some_inj] at isOne
      subst isOne
      exact own
  -- A step to a stage that is owed nothing.
  have plain {next : State} {after : Press}
      (isNamed : named next digest = none ∨ named next digest = named watched.state digest)
      (idle : after.stage.idle = true) (notMarking : press.stage ≠ .marking) :
      Quiet digest watched job (next.setPress job after) := by
    refine goes isNamed (fun call isMarked => ?_) notMarking fun _ => Owed.of_idle idle
    rw [isMarked] at idle
    cases idle
  have stays (notMarked : ∀ call, press.stage ≠ .marked call) (notMarking : press.stage ≠ .marking) :
      Quiet digest watched job watched.state := by
    refine ⟨.inr rfl, fun one isOne _ isMarking => ?_, fun one call isOne => ?_,
      fun one isOne => ?_⟩
    · cases isJob.symm.trans isOne
      exact absurd isMarking notMarking
    · cases isJob.symm.trans isOne
      exact notMarked call
    · cases isJob.symm.trans isOne
      exact owed
  have same : named watched.state digest = none ∨
      named watched.state digest = named watched.state digest := .inr rfl
  obtain ⟨process, mine, ofDigest, scope, mineFile, sameFile, stage⟩ := press
  cases stage with
  | keyOpening =>
    cases mine with
    | none => exact stays (by simp) (by simp)
    | some mine =>
      simp only [pressStep]
      split
      · exact plain same rfl (by simp)
      · exact plain (.inr named_openLock) rfl (by simp)
  | keyLocking waited =>
    cases mine with
    | none => exact stays (by simp) (by simp)
    | some mine =>
      simp only [pressStep]
      split
      · exact plain same rfl (by simp)
      · split
        · exact plain same rfl (by simp)
        · exact plain same rfl (by simp)
  | keyReading =>
    cases mine with
    | none => exact stays (by simp) (by simp)
    | some mine =>
      simp only [pressStep]
      split
      · split
        · exact plain same rfl (by simp)
        · split
          · exact plain same rfl (by simp)
          · exact plain same rfl (by simp)
      · exact plain same rfl (by simp)
  | keyJoining call =>
    simp only [pressStep]
    split
    · exact plain same rfl (by simp)
    · exact plain same rfl (by simp)
  | reqOpening =>
    simp only [pressStep]
    split
    · exact plain same left_idle (by simp)
    · exact plain (.inr named_openLock) rfl (by simp)
  | reqLocking waited =>
    simp only [pressStep]
    split
    · rename_i lock isLocked
      cases waited with
      | false => exact plain same rfl (by simp)
      | true =>
        refine goes same (by simp) (by simp) fun isDigest => ?_
        cases isDigest
        have isFree := free rfl rfl isLocked
        refine ⟨by simp [Stage.cleared], by simp, fun _ call isNamed => ?_, by simp [Stage.joins]⟩
        exact (((owed rfl).waits rfl).named call isNamed).resolve_right isFree
    · rename_i isHeld
      split
      · exact plain same left_idle (by simp)
      · refine goes same (by simp) (by simp) fun isDigest => ?_
        cases isDigest
        refine ⟨by simp [Stage.cleared], fun _ => ?_, by simp, by simp [Stage.joins]⟩
        refine Waits.on ?_ isJob (by simp) (by simp)
        cases waited with
        | false => exact waits_of_not_ended locked (begins rfl rfl isHeld)
        | true => exact (owed rfl).waits rfl
  | reqReading =>
    simp only [pressStep]
    split
    · rename_i call isNamed
      refine goes same (by simp) (by simp) fun isDigest => ?_
      cases isDigest
      refine ⟨by simp [Stage.cleared], by simp, by simp, fun one is => ?_⟩
      cases is
      exact (owed rfl).reads rfl call isNamed
    · exact plain same rfl (by simp)
  | reqJoining call =>
    simp only [pressStep]
    split
    · exact plain same rfl (by simp)
    · refine goes same (by simp) (by simp) fun isDigest => ?_
      refine ⟨by simp [Stage.cleared], by simp, by simp, fun one is => ?_⟩
      cases is
      exact (owed isDigest).joins call rfl
  | keyJoined call | keyMarked call =>
    cases mine with
    | none => exact plain same rfl (by simp)
    | some mine =>
      simp only [pressStep]
      split
      · exact plain same rfl (by simp)
      · exact plain (.inr (named_mark_other (by simp))) rfl (by simp)
  | marking =>
    simp only [pressStep]
    split
    · rename_i isFails
      refine ⟨same, fun one isOne isDigest isMarking => ?_, fun one call isOne => ?_,
        fun one isOne _ => ?_⟩
      · cases isJob.symm.trans isOne
        exact .inr (marking isDigest isMarking isFails)
      · rw [State.setPress_job, some_inj] at isOne
        subst isOne
        simp
      · rw [State.setPress_job, some_inj] at isOne
        subst isOne
        exact Owed.of_idle rfl
    · have isNone (isDigest : ofDigest = digest) :
          named (watched.state.mark (.req ofDigest) .running) digest = none := by
        rw [isDigest, named_mark]
        rfl
      refine ⟨?_, fun one isOne isDigest _ => ?_, fun one call isOne => ?_,
        fun one isOne isDigest => ?_⟩
      · by_cases isDigest : ofDigest = digest
        · exact .inl (isNone isDigest)
        · exact .inr (named_mark_other fun is => isDigest (Slot.req.inj is))
      · cases isJob.symm.trans isOne
        exact .inl (isNone isDigest)
      · rw [State.setPress_job, some_inj] at isOne
        subst isOne
        simp
      · rw [State.setPress_job, some_inj] at isOne
        subst isOne
        exact ⟨fun _ => isNone isDigest, by simp, by simp, by simp [Stage.joins]⟩
  | keyMarking =>
    have cleared {next : State} {after : Press} (isSame : named next digest = named watched.state digest)
        (sameDigest : after.digest = ofDigest) (isMaking : after.stage = .making) :
        Quiet digest watched job (next.setPress job after) := by
      refine goes (.inr isSame) (fun _ is => by cases isMaking.symm.trans is) (by simp)
        fun isDigest => ?_
      refine ⟨fun _ => isSame.trans ((owed (sameDigest.symm.trans isDigest)).cleared rfl), fun is => ?_,
        fun is => ?_, fun _ is => ?_⟩
      · cases isMaking.symm.trans is
      · cases isMaking.symm.trans is
      · rw [isMaking] at is
        cases is
    cases mine with
    | none => exact cleared rfl rfl rfl
    | some mine =>
      simp only [pressStep]
      split
      · exact plain same rfl (by simp)
      · exact cleared (named_mark_other (by simp)) rfl rfl
  | making =>
    cases turn with
    | makes call => exact absurd rfl (notMakes rfl call)
    | fails => exact plain same rfl (by simp)
    | succeeds | late => exact stays (by simp) (by simp)
  | marked call =>
    simp only [pressStep]
    split
    · exact plain same rfl (by simp)
    · rename_i notFails
      have notDigest := (notAnswers call rfl).resolve_left notFails
      exact plain (.inr (named_mark_other fun is => notDigest (Slot.req.inj is))) rfl (by simp)
  | releasing => exact plain same left_idle (by simp)
  | keyReleasing =>
    cases mine with
    | none => exact stays (by simp) (by simp)
    | some mine => exact plain same rfl (by simp)
  | pruning now =>
    refine ⟨same, fun one isOne _ isMarking => ?_, fun one _ isOne => ?_, fun one isOne => ?_⟩
    · cases isJob.symm.trans isOne
      cases isMarking
    · cases State.ends_job.symm.trans isOne
    · cases State.ends_job.symm.trans isOne
  | unlinking now file => exact plain named_unlink rfl (by simp)

theorem makes_heard {call : Str} (heard : Heard digest watched)
    (isJob : watched.state.jobs job = some press) (isMaking : press.stage = .making)
    (near : Near job press.removes watched.state (pressStep watched.state job press (.makes call)))
    (locked : Locked (pressStep watched.state job press (.makes call)))
    (linked : Linked (.req digest) (pressStep watched.state job press (.makes call))) :
    Heard digest ⟨pressStep watched.state job press (.makes call),
      hears watched (.goesOn job (.makes call))⟩ := by
  have isNext : pressStep watched.state job press (.makes call) =
      State.setPress { watched.state with made := watched.state.made ++ press.mine.toList } job
        { press with stage := .marked call } := by
    simp only [pressStep, isMaking]
  have more {one : Nat} {found : Str} (isHeard : found ∈ watched.waitedOut one) :
      found ∈ hears watched (.goesOn job (.makes call)) one := by
    simp only [hears]
    split
    · exact List.mem_append_left _ isHeard
    · exact isHeard
  have same : named (pressStep watched.state job press (.makes call)) digest =
      named watched.state digest := by
    rw [isNext]
    rfl
  have isAfter : (pressStep watched.state job press (.makes call)).jobs job =
      some { press with stage := .marked call } := by
    rw [isNext]
    exact State.setPress_job
  refine ⟨locked, linked, fun one after isOne isDigest => ?_⟩
  by_cases isOwn : one = job
  · subst isOwn
    cases isAfter.symm.trans isOne
    refine ⟨fun _ => same.trans ((heard.owed one press isJob isDigest).cleared ?_),
      by simp, by simp, by simp [Stage.joins]⟩
    rw [isMaking]
    rfl
  · have isOld := (near.jobs one isOwn).symm.trans isOne
    have owed := heard.owed one after isOld isDigest
    refine ⟨fun cleared => same.trans (owed.cleared cleared), fun waits => ⟨fun found isNamed => ?_,
      fun two marker found isTwo ofDigest marked notNil => ?_⟩, fun reads found isNamed => ?_,
      fun found joins => more (owed.joins found joins)⟩
    · refine ((owed.waits waits).named found (same.symm.trans isNamed)).imp more ?_
      rintro ⟨two, marker, isTwo, ofDigest, marking⟩
      refine ⟨two, marker, (near.jobs two ?_).trans isTwo, ofDigest, marking⟩
      rintro rfl
      cases isJob.symm.trans isTwo
      cases isMaking.symm.trans marking
    · by_cases isMaker : two = job
      · subst isMaker
        cases isAfter.symm.trans isTwo
        cases marked
        have isWaiting : (watched.state.jobs one).any (·.waits press.digest) := by
          rw [isOld]
          exact decide_eq_true ⟨isDigest.trans ofDigest.symm, waits⟩
        show call ∈ hears watched (.goesOn two (.makes call)) one
        simp only [hears]
        rw [if_pos]
        · exact List.mem_append_right _ (.head _)
        · rw [isJob]
          exact decide_eq_true ⟨isMaking, isWaiting⟩
      · have twoOld := (near.jobs two isMaker).symm.trans isTwo
        exact more ((owed.waits waits).ended two marker found twoOld ofDigest marked notNil)
    · exact more (owed.reads reads found (same.symm.trans isNamed))

theorem answers_heard {call : Str} (heard : Heard digest watched)
    (isJob : watched.state.jobs job = some press) (isMarked : press.stage = .marked call)
    (notFails : turn ≠ .fails) (isDigest : press.digest = digest)
    (near : Near job press.removes watched.state (pressStep watched.state job press turn))
    (locked : Locked (pressStep watched.state job press turn))
    (linked : Linked (.req digest) (pressStep watched.state job press turn)) :
    Heard digest ⟨pressStep watched.state job press turn, watched.waitedOut⟩ := by
  have isNext : pressStep watched.state job press turn =
      State.setPress (watched.state.mark (.req press.digest) (.done call [])) job
        { press with stage := .keyMarked call } := by
    simp only [pressStep, isMarked]
    exact if_neg notFails
  have isNamed : named (pressStep watched.state job press turn) digest =
      if call = [] then none else some call := by
    rw [isNext, isDigest]
    exact named_mark
  have isAfter : (pressStep watched.state job press turn).jobs job =
      some { press with stage := .keyMarked call } := by
    rw [isNext]
    exact State.setPress_job
  have held : press.stage.sameHeld := by
    rw [isMarked]
    rfl
  refine ⟨locked, linked, fun one after isOne ofDigest => ?_⟩
  by_cases isOwn : one = job
  · subst isOwn
    cases isAfter.symm.trans isOne
    exact Owed.of_idle rfl
  · have isOld := (near.jobs one isOwn).symm.trans isOne
    have owed := heard.owed one after isOld ofDigest
    have notHeld (alsoHeld : after.stage.sameHeld) : False :=
      isOwn (heard.unique isJob isOld isDigest ofDigest held alsoHeld)
    refine ⟨fun cleared => (notHeld ?_).elim, fun waits => ⟨fun found isFound => .inl ?_,
      fun two marker found isTwo twoDigest marked => ?_⟩, fun reads => (notHeld ?_).elim, owed.joins⟩
    · cases isStage : after.stage <;> rw [isStage] at cleared <;> first | rfl | cases cleared
    · rw [isNamed] at isFound
      split at isFound
      · cases isFound
      · rename_i notNil
        cases isFound
        exact (owed.waits waits).ended job press call isJob isDigest isMarked notNil
    · by_cases isMaker : two = job
      · subst isMaker
        cases isAfter.symm.trans isTwo
        cases marked
      · exact (owed.waits waits).ended two marker found ((near.jobs two isMaker).symm.trans isTwo)
          twoDigest marked
    · rw [reads]
      rfl

/-! ### Every step -/

theorem hears_quiet (quiet : press.stage = .making → ∀ call, turn ≠ .makes call)
    (isJob : watched.state.jobs job = some press) :
    hears watched (.goesOn job turn) = watched.waitedOut := by
  cases turn with
  | makes call =>
    funext one
    simp only [hears, isJob]
    refine if_neg fun isAny => ?_
    exact quiet (of_decide_eq_true isAny).1 call rfl
  | _ => rfl

theorem goesOn_heard (heard : Heard digest watched) (isJob : watched.state.jobs job = some press)
    (current : Current digest watched (.goesOn job turn)) :
    Heard digest (watch watched (.goesOn job turn)) := by
  have near := (@goesOn_moves _ _ _ turn heard.locked isJob).near
  have locked := step_locked _ (.goesOn job turn) heard.locked
  have linked := step_linked heard.locked heard.linked current.1
  have isStep : step watched.state (.goesOn job turn) = pressStep watched.state job press turn := by
    simp only [step, isJob]
  unfold watch
  rw [isStep] at near locked linked ⊢
  by_cases makes : press.stage = .making ∧ ∃ call, turn = .makes call
  · obtain ⟨isMaking, call, rfl⟩ := makes
    exact makes_heard heard isJob isMaking near locked linked
  · have notMakes : press.stage = .making → ∀ call, turn ≠ .makes call :=
      fun isMaking call isTurn => makes ⟨isMaking, call, isTurn⟩
    rw [hears_quiet notMakes isJob]
    by_cases answers : (∃ call, press.stage = .marked call) ∧ turn ≠ .fails ∧ press.digest = digest
    · obtain ⟨⟨call, isMarked⟩, notFails, isDigest⟩ := answers
      exact answers_heard heard isJob isMarked notFails isDigest near locked linked
    · refine heard.changes near (pressStep_quiet heard isJob current notMakes ?_) locked linked
      intro call isMarked
      by_contra isAnswer
      rw [not_or, not_not] at isAnswer
      exact answers ⟨⟨call, isMarked⟩, isAnswer.1, isAnswer.2⟩

theorem begin_heard {process : Nat} {mine : Option Key} {ofDigest scope : Str}
    (heard : Heard digest watched)
    (locked : Locked (step watched.state (.once process mine ofDigest scope)))
    (linked : Linked (.req digest) (step watched.state (.once process mine ofDigest scope))) :
    Heard digest ⟨step watched.state (.once process mine ofDigest scope), watched.waitedOut⟩ := by
  have isFirst {press : Press}
      (isPress : (step watched.state (.once process mine ofDigest scope)).jobs watched.state.next =
        some press) : press.stage.idle = true := by
    rcases (begin_press isPress).2.1 with isStage | ⟨isStage, -⟩ <;> rw [isStage] <;> rfl
  refine heard.changes begin_near ⟨.inr rfl, fun press isPress => ?_, fun press call isPress isMarked => ?_,
    fun press isPress _ => Owed.of_idle (isFirst isPress)⟩ locked linked
  · cases (heard.locked.fresh _ le_rfl).symm.trans isPress
  · have idle := isFirst isPress
    rw [isMarked] at idle
    cases idle

theorem checkStep_cases (state : State) (job : Nat) (press : Press) (file : File) :
    checkStep state job press file = state ∨ ∃ now, press.stage = .pruning now ∧
      checkStep state job press file = state.setPress job { press with stage := .unlinking now file } := by
  unfold checkStep
  split
  · rename_i now isPruning
    split
    · exact .inr ⟨now, isPruning, rfl⟩
    · exact .inl rfl
  · exact .inl rfl

theorem checks_heard {file : File} (heard : Heard digest watched)
    (isJob : watched.state.jobs job = some press)
    (locked : Locked (checkStep watched.state job press file))
    (linked : Linked (.req digest) (checkStep watched.state job press file)) :
    Heard digest ⟨checkStep watched.state job press file, watched.waitedOut⟩ := by
  have near := (@checkStep_moves _ _ _ file isJob (heard.locked.owns job press isJob)).near
  rcases checkStep_cases watched.state job press file with isSame | ⟨now, isPruning, isNext⟩
  · rw [isSame]
    exact heard
  · rw [isNext] at near locked linked ⊢
    refine heard.changes near ⟨.inr rfl, fun one isOne _ isMarking => ?_, fun one call isOne => ?_,
      fun one isOne _ => ?_⟩ locked linked
    · cases isJob.symm.trans isOne
      cases isPruning.symm.trans isMarking
    · rw [State.setPress_job, some_inj] at isOne
      subst isOne
      exact nofun
    · rw [State.setPress_job, some_inj] at isOne
      subst isOne
      exact Owed.of_idle rfl

theorem dies_heard {process : Nat} (heard : Heard digest watched)
    (current : Current digest watched (.dies process)) (locked : Locked (die watched.state process))
    (linked : Linked (.req digest) (die watched.state process)) :
    Heard digest ⟨die watched.state process, watched.waitedOut⟩ := by
  refine ⟨locked, linked, fun job press isPress isDigest => ?_⟩
  obtain ⟨isOld, stays⟩ := die_some isPress
  have owed := heard.owed job press isOld isDigest
  refine ⟨owed.cleared, fun waits => ⟨fun call isNamed => ?_, fun two marker call isTwo =>
    (owed.waits waits).ended two marker call (die_some isTwo).1⟩, owed.reads, owed.joins⟩
  rcases (owed.waits waits).named call isNamed with isHeard | ⟨two, marker, isTwo, ofDigest, marking⟩
  · exact .inl isHeard
  · by_cases isProcess : marker.process = process
    · have known := current.2 ((anyPress_iff heard.locked).mpr
        ⟨two, marker, isTwo, ofDigest, decide_eq_true ⟨isProcess, marking⟩⟩)
      refine .inl (known call isNamed job ?_ press isOld (decide_eq_true ⟨isDigest, waits⟩)
        (decide_eq_true stays))
      by_contra isLater
      cases (heard.locked.fresh job (Nat.le_of_not_lt isLater)).symm.trans isOld
    · exact .inr ⟨two, marker, filter_eq_some_iff.mpr ⟨isTwo, decide_eq_true isProcess⟩,
        ofDigest, marking⟩

theorem watch_heard (watched : Watched) (event : Event) (heard : Heard digest watched)
    (current : Current digest watched event) : Heard digest (watch watched event) := by
  have locked := step_locked _ event heard.locked
  have linked := step_linked heard.locked heard.linked current.1
  cases event with
  | once process mine ofDigest scope => exact begin_heard heard locked linked
  | goesOn job turn =>
    cases isJob : watched.state.jobs job with
    | none =>
      have isStep : step watched.state (.goesOn job turn) = watched.state := by
        simp only [step, isJob]
      have isHears : hears watched (.goesOn job turn) = watched.waitedOut := by
        cases turn with
        | makes call =>
          funext one
          simp [hears, isJob]
        | _ => rfl
      unfold watch
      rw [isStep, isHears]
      exact heard
    | some press => exact goesOn_heard heard isJob current
  | checks job file =>
    cases isJob : watched.state.jobs job with
    | none =>
      have isStep : step watched.state (.checks job file) = watched.state := by
        simp only [step, isJob]
      unfold watch
      rw [isStep]
      exact heard
    | some press =>
      have isStep : step watched.state (.checks job file) =
          checkStep watched.state job press file := by
        simp only [step, isJob]
      unfold watch
      rw [isStep] at locked linked ⊢
      exact checks_heard heard isJob locked linked
  | clock now =>
    refine ⟨locked, linked, fun job press isJob isDigest => ?_⟩
    have owed := heard.owed job press isJob isDigest
    exact ⟨owed.cleared, fun waits => ⟨(owed.waits waits).named, (owed.waits waits).ended⟩,
      owed.reads, owed.joins⟩
  | dies process => exact dies_heard heard current locked linked

/-! ### The runs -/

/-- **A press that waits is handed a call made while it waited.** In every run of presses, processes
that end and prunes whose steps meet the condition, whatever slots an earlier run left. -/
theorem joins_waited (now : Clock) (link : Slot → Option Nat) (created : Nat → Clock)
    (marker : Slot → Option (Marker × Clock)) (inodes : Nat) (digest : Str) (events : List Event)
    (current : Along watch (Current digest) ⟨begin_ now link created marker inodes, fun _ => []⟩
      events) :
    JoinsWaited digest
      (run watch ⟨begin_ now link created marker inodes, fun _ => []⟩ events) := by
  have begins : Heard digest ⟨begin_ now link created marker inodes, fun _ => []⟩ :=
    ⟨begin_locked now link created marker inodes, begin_linked now link created marker inodes,
      nofun⟩
  exact (current.keeps watch_heard begins).joinsWaited

instance (digest : Str) (state : State) : Decidable (Ended digest state) :=
  inferInstanceAs (Decidable (_ ∨ _))

instance (digest : Str) (watched : Watched) (stays : Press → Bool) :
    Decidable (Known digest watched stays) :=
  inferInstanceAs (Decidable (∀ call ∈ named watched.state digest, ∀ job < watched.state.next,
    ∀ press ∈ watched.state.jobs job, press.waits digest = true → stays press = true →
      call ∈ watched.waitedOut job))

instance (digest : Str) (watched : Watched) : ∀ event, Decidable (Current digest watched event)
  | .goesOn job turn => inferInstanceAs (Decidable (Spares (.req digest) watched.state _ ∧
      ∀ press ∈ watched.state.jobs job, press.digest = digest →
        (press.stage = .reqLocking false →
          (watched.state.lock press.sameFile).lockExclusive (job, .req digest) = none →
            ¬ Ended digest watched.state) ∧
        (press.stage = .marking → turn = .fails → Known digest watched fun _ => true)))
  | .dies process => inferInstanceAs (Decidable (Spares (.req digest) watched.state _ ∧
      (anyPress watched.state digest (fun press => press.process = process ∧ press.stage = .marking) =
        true → Known digest watched fun press => press.process ≠ process)))
  | .once _ _ _ _ | .checks _ _ | .clock _ => inferInstanceAs (Decidable (_ ∧ True))

/-- A press that makes, and another of its request that begins to wait meanwhile. -/
def pressedTwice : List Event :=
  [.once 1 none asked []] ++ goes 0 4 ++ [.once 2 none asked []] ++ goes 1 2 ++
    [.goesOn 0 (.makes "c1".ascii)] ++ goes 0 3 ++ goes 1 2

theorem pressed_twice_joins :
    JoinsWaited asked (run watch ⟨empty, fun _ => []⟩ pressedTwice) :=
  joins_waited 0 (fun _ => none) (fun _ => 0) (fun _ => none) 0 asked pressedTwice (by decide +kernel)

/-- A call is made and answered; the next press of the request claims the slot, another begins to
wait, and the claimer's process ends before it marks the slot. -/
def endsClaimed : List Event :=
  [.once 1 none asked []] ++ goes 0 4 ++ [.goesOn 0 (.makes "c1".ascii)] ++ goes 0 4 ++
    [.once 1 none asked []] ++ goes 1 2 ++ [.once 2 none asked []] ++ goes 2 2 ++ [.dies 1] ++
    goes 2 2

/-- A press begins to wait while the slot is being given up. -/
def beginsLate : List Event :=
  [.once 1 none asked []] ++ goes 0 4 ++ [.goesOn 0 (.makes "c1".ascii)] ++ goes 0 2 ++
    [.once 2 none asked []] ++ goes 1 2 ++ goes 0 1 ++ goes 1 2

theorem not_joins_waited :
    ¬ JoinsWaited asked (run watch ⟨empty, fun _ => []⟩ endsClaimed) ∧
      ¬ JoinsWaited asked (run watch ⟨empty, fun _ => []⟩ beginsLate) := by
  constructor
  · intro joins
    have isWaited := joins 2 ⟨2, none, asked, [], 0, 0, .reqJoining "c1".ascii⟩ "c1".ascii
      (by decide +kernel) rfl rfl
    exact absurd isWaited (by decide +kernel)
  · intro joins
    have isWaited := joins 1 ⟨2, none, asked, [], 0, 0, .reqJoining "c1".ascii⟩ "c1".ascii
      (by decide +kernel) rfl rfl
    exact absurd isWaited (by decide +kernel)

end Nmas.Ai.Presses
