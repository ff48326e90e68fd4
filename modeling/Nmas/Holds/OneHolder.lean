import Nmas.Holds.Owned
import Nmas.Log.Machine

/-!
Contract: at most one holder of a device, over every interleaving.

Owns:
- what succeeds in a step, and what it leaves of a process's entries;
- how often a thread has acquired a device, against what it has released;
- one holder of a device, and the hand-over.
-/

namespace Nmas.Holds

open Nmas.Text List
open Nmas.Log (amend)
open Nmas.Os (Flock)
open Nmas.Log.Machine (run run_keeps)
open Function

variable {state next : State} {pid : Nat} {process : Process} {key : Key} {hold : Hold}

/-- The thread an entry of `_held` is under, and its count. -/
structure Holding where
  thread : Nat
  count : Nat
deriving DecidableEq

def Hold.holding (hold : Hold) : Holding := ⟨hold.thread, hold.count⟩

def Process.holding (process : Process) (key : Key) : Option Holding :=
  (process.find key).map Hold.holding

def State.holding (state : State) (pid : Nat) (key : Key) : Option Holding :=
  (state.processes pid).holding key

def State.holds (state : State) (pid thread : Nat) (key : Key) : Bool :=
  (state.holding pid key).any (fun holding => holding.thread = thread)

/-- A call that succeeded, or a process's end. -/
inductive Returned where
  | acquired (pid thread : Nat) (key : Key)
  | released (pid thread : Nat) (key : Key)
  | handedOver (pid thread : Nat) (key : Key) (to_ : Nat)
  | died (pid : Nat)
deriving DecidableEq

/-- What succeeds in a step. An `acquire` of a device its thread holds returns
at once, any other once its record is synced. -/
def returned (state : State) : Event → Option Returned
  | .acquire pid thread key _ =>
    if (state.processes pid).critical.isNone && state.holds pid thread key then
      some (.acquired pid thread key)
    else none
  | .goesOn pid fails =>
    match (state.processes pid).critical with
    | some (.acquiring ⟨thread, key, _, _, .syncing⟩) =>
      if fails then none else some (.acquired pid thread key)
    | _ => none
  | .release pid thread key =>
    if (state.processes pid).critical.isNone && state.holds pid thread key then
      some (.released pid thread key)
    else none
  | .handOver pid thread key to_ =>
    if (state.processes pid).critical.isNone && state.holding pid key = some ⟨thread, 1⟩ then
      some (.handedOver pid thread key to_)
    else none
  | .dies pid => some (.died pid)
  | _ => none

/-- What it leaves of a process's entry under a key. -/
def Returned.after (pid : Nat) (key : Key) (holding : Option Holding) : Returned → Option Holding
  | .acquired other thread device =>
    if other = pid ∧ device = key then
      match holding with
      | some holding => some { holding with count := holding.count + 1 }
      | none => some ⟨thread, 1⟩
    else holding
  | .released other _ device =>
    if other = pid ∧ device = key then
      holding.bind (fun holding =>
        if holding.count > 1 then some { holding with count := holding.count - 1 } else none)
    else holding
  | .handedOver other _ device to_ =>
    if other = pid ∧ device = key then
      holding.map (fun holding => { holding with thread := to_ })
    else holding
  | .died other => if other = pid then none else holding

theorem holding_update (isNext : next.processes = update state.processes pid process)
    (other : Nat) (key : Key) :
    next.holding other key = if other = pid then process.holding key else state.holding other key := by
  unfold State.holding
  rw [isNext]
  by_cases isPid : other = pid
  · rw [if_pos isPid, isPid, update_self]
  · rw [if_neg isPid, update_of_ne isPid]

theorem holding_same {critical : Option Critical} {leaving : List Leaving} {opened : Nat}
    (isNext : next.processes = update state.processes pid
      ⟨(state.processes pid).held, critical, leaving, opened⟩) (other : Nat) (device : Key) :
    next.holding other device = state.holding other device := by
  rw [holding_update isNext]
  split
  · rename_i isPid
    rw [isPid]
    rfl
  · rfl

theorem holding_amend {change : Hold → Hold}
    (isNext : next.processes = update state.processes pid
      { state.processes pid with held := amend Hold.key key change (state.processes pid).held })
    (keeps : ∀ hold, (change hold).key = hold.key) (isFound : (state.processes pid).find key = some hold)
    (other : Nat) (device : Key) :
    next.holding other device =
      if pid = other ∧ key = device then some (change hold).holding
      else state.holding other device := by
  rw [holding_update isNext]
  have amended : Process.holding { state.processes pid with
      held := amend Hold.key key change (state.processes pid).held } device =
        if key = device then some (change hold).holding else state.holding pid device := by
    unfold Process.holding Process.find
    rw [Log.find_amend keeps]
    by_cases isKey : device = key
    · rw [if_pos isKey, if_pos isKey.symm, isKey]
      unfold Process.find at isFound
      rw [isFound]
      rfl
    · rw [if_neg isKey, if_neg (Ne.symm isKey)]
      rfl
  by_cases isPid : other = pid
  · subst isPid
    rw [if_pos rfl, amended]
    simp only [true_and]
  · rw [if_neg isPid, if_neg (fun both => isPid both.1.symm)]

theorem holding_acquiring {acquiring : Acquiring} {fails : Bool}
    (isBefore : fails ∨ acquiring.stage ≠ .syncing) (other : Nat) (device : Key) :
    (acquireStep state pid acquiring fails).holding other device = state.holding other device := by
  rcases acquireStep_cases state pid acquiring fails with
    ⟨next, stage, turns, isStep⟩ | ⟨isFalse, isStage, -⟩
  · rw [isStep]
    exact holding_same (settle_processes turns) other device
  · rcases isBefore with isTrue | notLast
    · rw [isFalse] at isTrue
      cases isTrue
    · exact absurd isStage notLast

theorem find_of_not_held (notHeld : key ∉ process.held.map Hold.key) : process.find key = none := by
  unfold Process.find
  rw [List.find?_eq_none]
  intro hold member isKey
  apply notHeld
  rw [← of_decide_eq_true isKey]
  exact mem_map_of_mem member

theorem holding_acquired {acquiring : Acquiring} (owned : Owned state)
    (isCritical : (state.processes pid).critical = some (.acquiring acquiring))
    (isLast : acquiring.stage = .syncing) (other : Nat) (device : Key) :
    (acquireStep state pid acquiring false).holding other device =
      (Returned.acquired pid acquiring.thread acquiring.key).after other device
        (state.holding other device) := by
  have notHeld := find_of_not_held ((owned.tidy pid).acquired _ (acquiring?_some isCritical))
  unfold acquireStep Returned.after
  rw [isLast]
  dsimp only
  rw [if_neg (by decide), holding_update rfl]
  by_cases isPid : other = pid
  · subst isPid
    rw [if_pos rfl]
    unfold State.holding Process.holding
    by_cases isKey : acquiring.key = device
    · subst isKey
      rw [if_pos ⟨rfl, rfl⟩, notHeld]
      unfold Process.find at notHeld ⊢
      rw [List.find?_append, notHeld]
      simp [Hold.holding]
    · rw [if_neg (fun both => isKey both.2)]
      unfold Process.find
      rw [List.find?_append]
      simp [isKey]
  · rw [if_neg isPid, if_neg (fun both => isPid both.1.symm)]

theorem holding_noted {change : Hold → Hold} {critical : Option Critical}
    (isNext : next.processes = update state.processes pid
      { state.processes pid with
        held := amend Hold.key key change (state.processes pid).held
        critical := critical })
    (keeps : ∀ hold, (change hold).key = hold.key ∧ (change hold).holding = hold.holding)
    (other : Nat) (device : Key) :
    next.holding other device = state.holding other device := by
  rw [holding_update isNext]
  by_cases isPid : other = pid
  · rw [if_pos isPid, isPid]
    unfold State.holding Process.holding Process.find
    rw [Log.find_amend (fun hold => (keeps hold).1)]
    split
    · rw [Option.map_map]
      congr 1
      funext hold
      exact (keeps hold).2
    · rfl
  · rw [if_neg isPid]

theorem holding_noteStep {noting : Noting} {fails : Bool} (other : Nat) (device : Key) :
    (noteStep state pid noting fails).holding other device = state.holding other device := by
  obtain ⟨next, held, further, notes, isStep⟩ := noteStep_cases state pid noting fails
  rw [isStep]
  cases notes with
  | empties key rest _ _ | fails key rest _ _ =>
    refine holding_noted rfl ?_ other device
    exact fun _ => ⟨rfl, rfl⟩
  | _ => exact holding_same rfl other device

theorem holding_leaveStep {place : Nat} {leaving : Leaving} {fails : Bool} (other : Nat)
    (device : Key) :
    (leaveStep state pid place leaving fails).holding other device = state.holding other device := by
  obtain ⟨next, stage, leaves, isStep⟩ := leaveStep_cases state pid place leaving fails
  rw [isStep]
  exact holding_same (setProcess_processes leaves.processes) other device

theorem holding_index (state : State) (index : Index) (other : Nat) (device : Key) :
    (index.step state).1.holding other device = state.holding other device := by
  unfold State.holding
  rw [(index_frame state index).1]

theorem holding_of_find (isFound : (state.processes pid).find key = some hold) :
    state.holding pid key = some hold.holding := by
  unfold State.holding Process.holding
  rw [isFound]
  rfl

theorem holds_of_find {thread : Nat} (isFound : (state.processes pid).find key = some hold) :
    state.holds pid thread key = decide (hold.thread = thread) := by
  unfold State.holds
  rw [holding_of_find isFound]
  rfl

theorem holding_none (isNone : (state.processes pid).find key = none) :
    state.holding pid key = none := by
  unfold State.holding Process.holding
  rw [isNone]
  rfl

theorem holds_none {thread : Nat} (isNone : (state.processes pid).find key = none) :
    state.holds pid thread key = false := by
  unfold State.holds
  rw [holding_none isNone]
  rfl

theorem holding_popped {leaving : List Leaving}
    (isNext : next.processes = update state.processes pid
      { state.processes pid with
        held := (state.processes pid).held.filter (fun hold => hold.key ≠ key)
        leaving := leaving })
    (other : Nat) (device : Key) :
    next.holding other device =
      if pid = other ∧ key = device then none else state.holding other device := by
  rw [holding_update isNext]
  by_cases isPid : other = pid
  · subst isPid
    rw [if_pos rfl]
    unfold State.holding Process.holding Process.find
    by_cases isKey : key = device
    · rw [if_pos ⟨rfl, isKey⟩, List.find?_eq_none.mpr]
      · rfl
      · intro hold member
        have isOther := (mem_filter.mp member).2
        simpa [isKey] using isOther
    · rw [if_neg (fun both => isKey both.2), List.find?_filter]
      congr 2
      funext hold
      by_cases isDevice : hold.key = device
      · simp [isDevice, Ne.symm isKey]
      · simp [isDevice]
  · rw [if_neg isPid, if_neg (fun both => isPid both.1.symm)]

section
variable {thread : Nat} (idle : (state.processes pid).critical = none) (other : Nat) (device : Key)
include idle

theorem returned_acquire (asked : Asked) :
    returned state (.acquire pid thread key asked) =
      if state.holds pid thread key then some (.acquired pid thread key) else none := by
  unfold returned
  simp only [idle, Option.isNone_none, Bool.true_and]

theorem returned_release :
    returned state (.release pid thread key) =
      if state.holds pid thread key then some (.released pid thread key) else none := by
  unfold returned
  simp only [idle, Option.isNone_none, Bool.true_and]

theorem returned_handOver (to_ : Nat) :
    returned state (.handOver pid thread key to_) =
      if state.holding pid key = some ⟨thread, 1⟩ then some (.handedOver pid thread key to_)
      else none := by
  unfold returned
  simp only [idle, Option.isNone_none, Bool.true_and, decide_eq_true_eq]

theorem holding_acquire (asked : Asked) :
    (acquire state pid thread key asked).holding other device =
      (returned state (.acquire pid thread key asked)).elim (state.holding other device)
        (Returned.after other device (state.holding other device)) := by
  rw [returned_acquire idle]
  unfold acquire
  dsimp only
  split
  · rename_i hold isFound
    rw [holds_of_find isFound]
    by_cases isOwn : hold.thread = thread
    · rw [if_pos isOwn, decide_eq_true isOwn, if_pos rfl]
      rw [holding_amend rfl (fun _ => by rfl) isFound]
      simp only [Option.elim_some, Returned.after]
      split
      · rename_i isEntry
        rw [← isEntry.1, ← isEntry.2, holding_of_find isFound]
        rfl
      · rfl
    · rw [if_neg isOwn, decide_eq_false isOwn]
      rfl
  · rename_i isNone
    rw [holds_none isNone]
    apply holding_same
    rfl

theorem holding_release :
    (release state pid thread key).holding other device =
      (returned state (.release pid thread key)).elim (state.holding other device)
        (Returned.after other device (state.holding other device)) := by
  rw [returned_release idle]
  unfold release
  dsimp only
  split
  · rename_i isNone
    rw [holds_none isNone]
    rfl
  · rename_i hold isFound
    rw [holds_of_find isFound]
    by_cases isOwn : hold.thread = thread
    · rw [if_neg (not_not_intro isOwn), decide_eq_true isOwn, if_pos rfl]
      simp only [Option.elim_some, Returned.after]
      split
      · rename_i isMany
        rw [holding_amend rfl (fun _ => by rfl) isFound]
        split
        · rename_i isEntry
          rw [← isEntry.1, ← isEntry.2, holding_of_find isFound]
          exact (if_pos isMany).symm
        · rfl
      · rename_i isLast
        rw [holding_popped rfl]
        split
        · rename_i isEntry
          rw [← isEntry.1, ← isEntry.2, holding_of_find isFound]
          exact (if_neg isLast).symm
        · rfl
    · rw [if_pos isOwn, decide_eq_false isOwn]
      rfl

theorem holding_handOver (to_ : Nat) :
    (handOver state pid thread key to_).holding other device =
      (returned state (.handOver pid thread key to_)).elim (state.holding other device)
        (Returned.after other device (state.holding other device)) := by
  rw [returned_handOver idle]
  unfold handOver
  dsimp only
  split
  · rename_i isNone
    rw [holding_none isNone, if_neg (by simp)]
    rfl
  · rename_i hold isFound
    rw [holding_of_find isFound]
    by_cases isOwn : hold.thread = thread ∧ hold.count = 1
    · rw [if_neg (by tauto), if_pos (by rw [Hold.holding, isOwn.1, isOwn.2])]
      rw [holding_amend rfl (fun _ => by rfl) isFound]
      simp only [Option.elim_some, Returned.after]
      split
      · rename_i isEntry
        rw [← isEntry.1, ← isEntry.2, holding_of_find isFound]
        rfl
      · rfl
    · rw [if_pos (by tauto), if_neg]
      · rfl
      · intro isEntry
        injection isEntry with isEntry
        injection isEntry with isThread isCount
        exact isOwn ⟨isThread, isCount⟩

end

/-- The calls made in `_mu`, which wait while another thread is in it. -/
def Event.waits (pid : Nat) : Event → Bool
  | .acquire other .. | .release other .. | .handOver other .. => other = pid
  | _ => false

theorem returned_waits {critical : Critical} {event : Event}
    (isCritical : (state.processes pid).critical = some critical) (waits : event.waits pid) :
    returned state event = none := by
  cases event <;> simp_all [Event.waits, returned]

theorem returned_acquiring {acquiring : Acquiring} {fails : Bool}
    (isCritical : (state.processes pid).critical = some (.acquiring acquiring))
    (isBefore : fails ∨ acquiring.stage ≠ .syncing) :
    returned state (.goesOn pid fails) = none := by
  unfold returned
  dsimp only
  rw [isCritical]
  split
  · rename_i isLast
    cases isLast
    rcases isBefore with rfl | notLast
    · rfl
    · exact absurd rfl notLast
  · rfl

theorem returned_acquired {acquiring : Acquiring}
    (isCritical : (state.processes pid).critical = some (.acquiring acquiring))
    (isLast : acquiring.stage = .syncing) :
    returned state (.goesOn pid false) = some (.acquired pid acquiring.thread acquiring.key) := by
  obtain ⟨thread, key, fd, info, stage⟩ := acquiring
  cases isLast
  unfold returned
  dsimp only
  rw [isCritical]
  rfl

theorem holding_step (owned : Owned state) (event : Event) (other : Nat) (device : Key) :
    (step state event).holding other device =
      (returned state event).elim (state.holding other device)
        (Returned.after other device (state.holding other device)) := by
  cases event with
  | acquire pid thread key asked =>
    unfold step
    dsimp only
    split
    · rename_i isCritical
      rw [returned_waits isCritical (by simp [Event.waits])]
      rfl
    · exact holding_acquire ‹_› other device asked
  | goesOn pid fails =>
    unfold step
    dsimp only
    split
    · rename_i idle
      unfold returned
      dsimp only
      rw [idle]
      rfl
    · rename_i acquiring isCritical
      by_cases isLast : fails = false ∧ acquiring.stage = .syncing
      · rw [isLast.1, holding_acquired owned isCritical isLast.2]
        rw [returned_acquired isCritical isLast.2]
        rfl
      · have isBefore : fails ∨ acquiring.stage ≠ .syncing := by
          cases fails <;> tauto
        rw [returned_acquiring isCritical isBefore]
        exact holding_acquiring isBefore other device
    · rename_i noting isCritical
      unfold returned
      dsimp only
      rw [isCritical]
      exact holding_noteStep other device
  | release pid thread key =>
    unfold step
    dsimp only
    split
    · rename_i isCritical
      rw [returned_waits isCritical (by simp [Event.waits])]
      rfl
    · exact holding_release ‹_› other device
  | leaves pid place fails =>
    unfold step returned
    dsimp only
    split
    · rfl
    · exact holding_leaveStep other device
  | handOver pid thread key to_ =>
    unfold step
    dsimp only
    split
    · rename_i isCritical
      rw [returned_waits isCritical (by simp [Event.waits])]
      rfl
    · exact holding_handOver ‹_› other device to_
  | note pid thread device step_ now =>
    unfold step returned
    dsimp only
    split
    · rfl
    · exact holding_same rfl other _
  | probe pid fd path =>
    unfold step returned
    dsimp only
    split <;> rfl
  | unprobe pid fd path | index folder => rfl
  | indexes place fails =>
    unfold step returned
    dsimp only
    split
    · rfl
    · rename_i index _
      have same := holding_index state index other device
      split
      · rfl
      · split
        · rename_i isNext
          rw [isNext] at same
          exact same
        · rename_i isNext
          rw [isNext] at same
          exact same
  | dies pid =>
    show (die state pid).holding other device = if pid = other then none else _
    rw [holding_update rfl]
    by_cases isPid : other = pid
    · rw [if_pos isPid, if_pos isPid.symm]
      rfl
    · rw [if_neg isPid, if_neg (Ne.symm isPid)]

/-! ### How often a thread has acquired a device -/

def State.count (state : State) (pid thread : Nat) (key : Key) : Nat :=
  match state.holding pid key with
  | some holding => if holding.thread = thread then holding.count else 0
  | none => 0

/-- What has succeeded along a run. -/
def trace : State → List Event → List Returned
  | _, [] => []
  | state, event :: rest => (returned state event).toList ++ trace (step state event) rest

/-- A thread's acquires of a device less its releases. A hand-over takes it from
one thread and gives it, once, to another; a process's end takes all it had. -/
def Returned.depth (pid thread : Nat) (key : Key) (depth : Nat) : Returned → Nat
  | .acquired other holder device =>
    if other = pid ∧ holder = thread ∧ device = key then depth + 1 else depth
  | .released other holder device =>
    if other = pid ∧ holder = thread ∧ device = key then depth - 1 else depth
  | .handedOver other holder device to_ =>
    if other = pid ∧ device = key then
      if to_ = thread then 1 else if holder = thread then 0 else depth
    else depth
  | .died other => if other = pid then 0 else depth

/-- A call succeeds for the thread an entry is under, and an `acquire` where
there is none. -/
def Returned.Grants (state : State) : Returned → Prop
  | .acquired pid thread key => ∀ holding ∈ state.holding pid key, holding.thread = thread
  | .released pid thread key => ∃ holding ∈ state.holding pid key, holding.thread = thread
  | .handedOver pid thread key _ => state.holding pid key = some ⟨thread, 1⟩
  | .died _ => True

theorem State.holding_of_holds {thread : Nat} (holds : state.holds pid thread key) :
    ∃ holding ∈ state.holding pid key, holding.thread = thread := by
  unfold State.holds at holds
  rw [Option.any_eq_true] at holds
  obtain ⟨holding, isHolding, isOwn⟩ := holds
  exact ⟨holding, isHolding, of_decide_eq_true isOwn⟩

theorem returned_grants {event : Event} {done : Returned} (owned : Owned state)
    (isDone : returned state event = some done) : done.Grants state := by
  unfold returned at isDone
  split at isDone
  · split at isDone <;> cases isDone
    rename_i granted
    obtain ⟨holding, isHolding, isOwn⟩ := State.holding_of_holds (Bool.and_eq_true_iff.mp granted).2
    intro other isOther
    rw [isHolding] at isOther
    cases isOther
    exact isOwn
  · split at isDone
    · rename_i pid _ _ thread key fd info isCritical
      split at isDone <;> cases isDone
      intro holding isHolding
      have notHeld := find_of_not_held ((owned.tidy pid).acquired _ (acquiring?_some isCritical))
      rw [holding_none notHeld] at isHolding
      cases isHolding
    · cases isDone
  · split at isDone <;> cases isDone
    rename_i granted
    exact State.holding_of_holds (Bool.and_eq_true_iff.mp granted).2
  · split at isDone <;> cases isDone
    rename_i granted
    have isHolding := (Bool.and_eq_true_iff.mp granted).2
    rw [decide_eq_true_eq] at isHolding
    exact isHolding
  · cases isDone
    trivial
  · cases isDone

theorem count_step (owned : Owned state) (event : Event) (pid thread : Nat) (key : Key) :
    (step state event).count pid thread key =
      (returned state event).elim (state.count pid thread key)
        (Returned.depth pid thread key (state.count pid thread key)) := by
  unfold State.count
  rw [holding_step owned]
  cases isDone : returned state event with
  | none => rfl
  | some done =>
    have grants := returned_grants owned isDone
    simp only [Option.elim_some]
    cases done with
    | acquired other holder device =>
      dsimp only [Returned.after, Returned.depth]
      by_cases isEntry : other = pid ∧ device = key
      · obtain ⟨rfl, rfl⟩ := isEntry
        cases isHolding : state.holding other device with
        | none => by_cases isOwn : holder = thread <;> simp [isOwn]
        | some holding =>
          have isHolder := grants holding isHolding
          by_cases isOwn : holder = thread <;> simp [isHolder, isOwn]
      · rw [if_neg isEntry, if_neg (fun all => isEntry ⟨all.1, all.2.2⟩)]
    | released other holder device =>
      dsimp only [Returned.after, Returned.depth]
      by_cases isEntry : other = pid ∧ device = key
      · obtain ⟨rfl, rfl⟩ := isEntry
        obtain ⟨holding, isHolding, isHolder⟩ := grants
        rw [isHolding]
        by_cases isMany : holding.count > 1
        · by_cases isOwn : holder = thread <;> simp [isHolder, isOwn, isMany]
        · have isLast : holding.count - 1 = 0 := by omega
          by_cases isOwn : holder = thread <;> simp [isHolder, isOwn, isMany, isLast]
      · rw [if_neg isEntry, if_neg (fun all => isEntry ⟨all.1, all.2.2⟩)]
    | handedOver other holder device to_ =>
      dsimp only [Returned.after, Returned.depth]
      by_cases isEntry : other = pid ∧ device = key
      · obtain ⟨rfl, rfl⟩ := isEntry
        have isHolding : state.holding other device = some ⟨holder, 1⟩ := grants
        rw [isHolding]
        by_cases isTo : to_ = thread
        · simp [isTo]
        · by_cases isOwn : holder = thread <;> simp [isTo, isOwn]
      · rw [if_neg isEntry, if_neg isEntry]
    | died other =>
      dsimp only [Returned.after, Returned.depth]
      by_cases isPid : other = pid <;> simp [isPid]

/-- Every entry counts at least one acquire. -/
def Counted (state : State) : Prop :=
  ∀ pid key, ∀ holding ∈ state.holding pid key, 0 < holding.count

theorem counted_step (owned : Owned state) (counted : Counted state) (event : Event) :
    Counted (step state event) := by
  intro pid key holding isHolding
  rw [holding_step owned] at isHolding
  cases isDone : returned state event with
  | none =>
    rw [isDone] at isHolding
    exact counted pid key holding isHolding
  | some done =>
    rw [isDone] at isHolding
    simp only [Option.elim_some] at isHolding
    have before := counted pid key
    cases done with
    | acquired other holder device =>
      dsimp only [Returned.after] at isHolding
      split at isHolding
      · split at isHolding
        · cases isHolding
          exact Nat.succ_pos _
        · cases isHolding
          exact Nat.one_pos
      · exact before holding isHolding
    | released other holder device =>
      dsimp only [Returned.after] at isHolding
      split at isHolding
      · obtain ⟨held, isHeld, popped⟩ := Option.bind_eq_some_iff.mp isHolding
        split at popped
        · rename_i isMany
          cases popped
          exact Nat.sub_pos_of_lt isMany
        · cases popped
      · exact before holding isHolding
    | handedOver other holder device to_ =>
      dsimp only [Returned.after] at isHolding
      split at isHolding
      · obtain ⟨held, isHeld, rfl⟩ := Option.map_eq_some_iff.mp isHolding
        exact before held isHeld
      · exact before holding isHolding
    | died other =>
      dsimp only [Returned.after] at isHolding
      split at isHolding
      · cases isHolding
      · exact before holding isHolding

theorem counted_begin (contents : Path → Option Info) (marks : Path → Bool)
    (folders : Str → Folder) : Counted (begin_ contents marks folders) := by
  intro pid key holding isHolding
  cases isHolding

theorem run_kept {contents : Path → Option Info} {marks : Path → Bool} {folders : Str → Folder}
    (events : List Event) :
    Owned (run step (begin_ contents marks folders) events) ∧
      Counted (run step (begin_ contents marks folders) events) := by
  have step_keeps : ∀ state event, Owned state ∧ Counted state →
      Owned (step state event) ∧ Counted (step state event) := by
    intro state event kept
    exact ⟨owned_step state event kept.1, counted_step kept.1 kept.2 event⟩
  exact run_keeps step_keeps events
    ⟨owned_begin contents marks folders, counted_begin contents marks folders⟩

theorem count_run (owned : Owned state) (events : List Event) (pid thread : Nat) (key : Key) :
    (run step state events).count pid thread key =
      (trace state events).foldl (Returned.depth pid thread key) (state.count pid thread key) := by
  induction events generalizing state with
  | nil => rfl
  | cons event rest ih =>
    show (run step (step state event) rest).count pid thread key = _
    rw [ih (owned_step state event owned), count_step owned]
    show _ = ((returned state event).toList ++ trace (step state event) rest).foldl _ _
    rw [foldl_append]
    cases returned state event <;> rfl

theorem holds_iff_count (counted : Counted state) (pid thread : Nat) (key : Key) :
    state.holds pid thread key ↔ 0 < state.count pid thread key := by
  unfold State.holds State.count
  cases isHolding : state.holding pid key with
  | none => simp
  | some holding =>
    have positive := counted pid key holding isHolding
    by_cases isOwn : holding.thread = thread <;> simp [isOwn, positive]

/-! ### One holder -/

theorem locked_of_holds {thread : Nat} (owned : Owned state) (holds : state.holds pid thread key) :
    ∃ hold ∈ (state.processes pid).held, hold.key = key ∧ hold.thread = thread ∧
      (state.locks key.path).exclusive = some (.holder pid hold.fd) := by
  obtain ⟨holding, isHolding, isOwn⟩ := State.holding_of_holds holds
  obtain ⟨hold, isFound, rfl⟩ := Option.map_eq_some_iff.mp isHolding
  obtain ⟨member, isKey⟩ := find_some isFound
  refine ⟨hold, member, isKey, isOwn, ?_⟩
  have isClaim : hold.claim ∈ (state.processes pid).claims :=
    mem_append_left _ (mem_append_left _ (mem_map_of_mem member))
  rw [← isKey]
  exact owned.own pid hold.claim isClaim

theorem process_unique {path : Path} {other fd more : Nat}
    (locked : (state.locks path).exclusive = some (.holder pid fd))
    (also : (state.locks path).exclusive = some (.holder other more)) : pid = other := by
  rw [locked] at also
  cases also
  rfl

theorem holder_unique {other thread holder : Nat} (owned : Owned state)
    (holds : state.holds pid thread key) (also : state.holds other holder key) :
    pid = other ∧ thread = holder := by
  obtain ⟨_, -, -, -, locked⟩ := locked_of_holds owned holds
  obtain ⟨_, -, -, -, lockedToo⟩ := locked_of_holds owned also
  have samePid := process_unique locked lockedToo
  subst samePid
  obtain ⟨holding, isHolding, isOwn⟩ := State.holding_of_holds holds
  obtain ⟨same, isSame, isAlso⟩ := State.holding_of_holds also
  rw [isHolding] at isSame
  cases isSame
  exact ⟨rfl, isOwn.symm.trans isAlso⟩

theorem acquired_locked {thread : Nat} {event : Event} (owned : Owned state)
    (isDone : returned state event = some (.acquired pid thread key)) :
    ∃ fd, (state.locks key.path).exclusive = some (.holder pid fd) := by
  unfold returned at isDone
  split at isDone
  · split at isDone <;> cases isDone
    rename_i granted
    obtain ⟨hold, -, -, -, locked⟩ := locked_of_holds owned (Bool.and_eq_true_iff.mp granted).2
    exact ⟨hold.fd, locked⟩
  · split at isDone
    · rename_i fd info isCritical
      split at isDone <;> cases isDone
      exact ⟨fd, owned.own _ _ (mem_claims_acquiring isCritical rfl)⟩
    · cases isDone
  · split at isDone <;> cases isDone
  · split at isDone <;> cases isDone
  · cases isDone
  · cases isDone

theorem acquired_by_holder {thread other holder : Nat} {event : Event} (owned : Owned state)
    (holds : state.holds pid thread key)
    (isDone : returned state event = some (.acquired other holder key)) :
    other = pid ∧ holder = thread := by
  obtain ⟨hold, -, -, -, locked⟩ := locked_of_holds owned holds
  obtain ⟨fd, lockedToo⟩ := acquired_locked owned isDone
  have samePid := process_unique locked lockedToo
  subst samePid
  obtain ⟨holding, isHolding, isOwn⟩ := State.holding_of_holds holds
  have grants := returned_grants owned isDone
  exact ⟨rfl, (grants holding isHolding).symm.trans isOwn⟩

theorem release_of_not_holds {thread : Nat} (notHolds : state.holds pid thread key = false) :
    step state (.release pid thread key) = state := by
  unfold step
  dsimp only
  split
  · rfl
  · unfold release
    dsimp only
    split
    · rfl
    · rename_i hold isFound
      rw [holds_of_find isFound] at notHolds
      rw [if_pos (of_decide_eq_false notHolds)]

theorem handedOver_moves {thread to_ : Nat} {event : Event} (owned : Owned state)
    (isDone : returned state event = some (.handedOver pid thread key to_)) :
    state.holds pid thread key ∧ (step state event).holds pid to_ key ∧
      (step state event).locks = state.locks := by
  have isHolding : state.holding pid key = some ⟨thread, 1⟩ := returned_grants owned isDone
  refine ⟨?_, ?_, ?_⟩
  · unfold State.holds
    rw [isHolding]
    exact decide_eq_true rfl
  · unfold State.holds
    rw [holding_step owned, isDone]
    simp [Returned.after, isHolding]
  · unfold returned at isDone
    split at isDone
    · split at isDone <;> cases isDone
    · split at isDone
      · split at isDone <;> cases isDone
      · cases isDone
    · split at isDone <;> cases isDone
    · unfold step handOver
      dsimp only
      split
      · rfl
      · split
        · rfl
        · split <;> rfl
    · cases isDone
    · cases isDone

/-- **One holder of a device.** In every state of every run of any processes and
threads, with a process ending at any point and any call failing: one thread of
one process holds a device; how often is its acquires less its releases; a
release by another changes nothing; while it is held only its holder's
`acquire` succeeds, and a hand-over is one step from one holder to the next. -/
theorem one_holder (contents : Path → Option Info) (marks : Path → Bool) (folders : Str → Folder)
    (events : List Event) :
    let start := begin_ contents marks folders
    let state := run step start events
    (∀ key pid thread other holder, state.holds pid thread key = true →
      state.holds other holder key = true → pid = other ∧ thread = holder) ∧
    (∀ key pid thread,
      state.count pid thread key =
        (trace start events).foldl (Returned.depth pid thread key) 0 ∧
      (state.holds pid thread key = true ↔ 0 < state.count pid thread key)) ∧
    (∀ key pid thread, state.holds pid thread key = false →
      step state (.release pid thread key) = state) ∧
    (∀ key pid thread other holder event, state.holds pid thread key = true →
      returned state event = some (.acquired other holder key) → other = pid ∧ holder = thread) ∧
    (∀ key pid thread to_ event,
      returned state event = some (.handedOver pid thread key to_) →
      state.holds pid thread key = true ∧ (step state event).holds pid to_ key = true ∧
        (step state event).locks = state.locks) := by
  intro start state
  have kept : Owned state ∧ Counted state := run_kept events
  refine ⟨?_, ?_, ?_, ?_, ?_⟩
  · intro key pid thread other holder holds also
    exact holder_unique kept.1 holds also
  · intro key pid thread
    exact ⟨count_run (owned_begin contents marks folders) events pid thread key,
      holds_iff_count kept.2 pid thread key⟩
  · intro key pid thread notHolds
    exact release_of_not_holds notHolds
  · intro key pid thread other holder event holds isDone
    exact acquired_by_holder kept.1 holds isDone
  · intro key pid thread to_ event isDone
    exact handedOver_moves kept.1 isDone

end Nmas.Holds
