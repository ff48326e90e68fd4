import Mathlib.Data.List.Nodup
import Nmas.Holds.Outcomes

/-!
Contract: what a process has locked at any moment, and that the kernel agrees.

Owns:
- a process's claims: its holds, its releases up to the unlock, its acquire from
  the lock on;
- how each step moves the locks: one taken, one given up, or none;
- `Owned`, kept by every step of every process.
-/

namespace Nmas.Holds

open Nmas.Text List
open Nmas.Log (amend)
open Nmas.Os (Flock)
open Function

def Stage.locked : Stage → Bool
  | .locking _ | .blocked _ => false
  | _ => true

def LeaveStage.locked : LeaveStage → Bool
  | .closing => false
  | _ => true

structure Claim where
  path : Path
  fd : Nat

def Hold.claim (hold : Hold) : Claim := ⟨hold.key.path, hold.fd⟩

def Leaving.claim (leaving : Leaving) : Claim := ⟨leaving.key.path, leaving.fd⟩

def Acquiring.claim (acquiring : Acquiring) : Claim := ⟨acquiring.key.path, acquiring.fd⟩

/-- The `acquire` a process is in. -/
def Process.acquiring? (process : Process) : Option Acquiring :=
  match process.critical with
  | some (.acquiring acquiring) => some acquiring
  | _ => none

def Process.claims (process : Process) : List Claim :=
  process.held.map Hold.claim ++
    (process.leaving.filter (fun leaving => leaving.stage.locked)).map Leaving.claim ++
    (process.acquiring?.filter (fun acquiring => acquiring.stage.locked)).toList.map Acquiring.claim

def Process.fds (process : Process) : List Nat :=
  process.held.map Hold.fd ++ process.leaving.map Leaving.fd ++
    process.acquiring?.toList.map Acquiring.fd

/-- A process's own books: each of its open files is one hold, each key is held
once, and what is being acquired is not held. -/
structure Tidy (process : Process) : Prop where
  distinct : process.fds.Nodup
  opened : ∀ fd ∈ process.fds, fd < process.opened
  keys : (process.held.map Hold.key).Nodup
  acquired : ∀ acquiring ∈ process.acquiring?, acquiring.key ∉ process.held.map Hold.key

def Own (locks : Path → Flock Owner) (pid : Nat) (process : Process) : Prop :=
  ∀ claim ∈ process.claims, (locks claim.path).exclusive = some (.holder pid claim.fd)

structure Owned (state : State) : Prop where
  own : ∀ pid, Own state.locks pid (state.processes pid)
  tidy : ∀ pid, Tidy (state.processes pid)

variable {state next : State} {pid : Nat} {process : Process} {key : Key} {hold : Hold}
  {locks : Path → Flock Owner}

theorem find_some (isFound : process.find key = some hold) :
    hold ∈ process.held ∧ hold.key = key := by
  refine ⟨mem_of_find?_eq_some isFound, ?_⟩
  simpa using List.find?_some isFound

theorem find_of_mem (tidy : Tidy process) (member : hold ∈ process.held) :
    process.find hold.key = some hold := by
  have nodup := tidy.keys
  unfold Process.find
  generalize process.held = held at nodup member
  induction held with
  | nil => cases member
  | cons first rest ih =>
    rw [map_cons, nodup_cons] at nodup
    rcases mem_cons.mp member with isFirst | later
    · subst isFirst
      simp
    · have other : first.key ≠ hold.key := by
        intro same
        apply nodup.1
        rw [same]
        exact mem_map_of_mem later
      rw [List.find?_cons_of_neg (by simpa using other)]
      exact ih nodup.2 later

/-! ### What a process has locked -/

variable {before : Process} {path : Path} {fd : Nat} {lock : Flock Owner}

theorem own_of_fewer (own : Own locks pid before) (fewer : process.claims ⊆ before.claims) :
    Own locks pid process :=
  fun claim member => own claim (fewer member)

theorem own_take (own : Own locks pid before)
    (taken : (locks path).lockExclusive (.holder pid fd) = some lock)
    (claims : ∀ claim ∈ process.claims, claim ∈ before.claims ∨ claim = ⟨path, fd⟩) :
    Own (update locks path lock) pid process := by
  obtain ⟨wasFree, isTaken⟩ := Flock.lockExclusive_some taken
  intro claim member
  rcases claims claim member with before | rfl
  · have held := own claim before
    have otherPath : claim.path ≠ path := by
      intro same
      rw [same, wasFree] at held
      cases held
    rw [update_of_ne otherPath]
    exact held
  · rw [update_self]
    exact isTaken

theorem own_unlock (own : Own locks pid before) (fewer : process.claims ⊆ before.claims)
    (gone : ∀ claim ∈ process.claims, claim.fd ≠ fd) :
    Own (update locks path ((locks path).unlock (.holder pid fd))) pid process := by
  intro claim member
  have held := own claim (fewer member)
  by_cases isPath : claim.path = path
  · rw [isPath, update_self]
    apply Flock.unlock_exclusive
    · rw [← isPath]
      exact held
    · intro same
      cases same
      exact gone claim member rfl
  · rw [update_of_ne isPath]
    exact held

def OthersKept (pid : Nat) (locks after : Path → Flock Owner) : Prop :=
  ∀ path owner, owner.process ≠ pid → (locks path).exclusive = some owner →
    (after path).exclusive = some owner

theorem othersKept_take (taken : (locks path).lockExclusive (.holder pid fd) = some lock) :
    OthersKept pid locks (update locks path lock) := by
  intro other owner _ held
  by_cases isPath : other = path
  · rw [isPath, (Flock.lockExclusive_some taken).1] at held
    cases held
  · rw [update_of_ne isPath]
    exact held

theorem othersKept_unlock :
    OthersKept pid locks (update locks path ((locks path).unlock (.holder pid fd))) := by
  intro other owner isOther held
  by_cases isPath : other = path
  · subst isPath
    rw [update_self]
    apply Flock.unlock_exclusive held
    intro same
    rw [same] at isOther
    exact isOther rfl
  · rw [update_of_ne isPath]
    exact held

theorem Owned.changes (owned : Owned state)
    (isNext : next.processes = update state.processes pid process)
    (others : OthersKept pid state.locks next.locks) (own : Own next.locks pid process)
    (tidy : Tidy process) : Owned next := by
  constructor
  · intro other
    rw [isNext]
    by_cases isPid : other = pid
    · rw [isPid, update_self]
      exact own
    · rw [update_of_ne isPid]
      intro claim member
      exact others claim.path _ isPid (owned.own other claim member)
  · intro other
    rw [isNext]
    by_cases isPid : other = pid
    · rw [isPid, update_self]
      exact tidy
    · rw [update_of_ne isPid]
      exact owned.tidy other

theorem Owned.moves (owned : Owned state)
    (isNext : next.processes = update state.processes pid process)
    (sameLocks : next.locks = state.locks) (fewer : process.claims ⊆ (state.processes pid).claims)
    (tidy : Tidy process) : Owned next := by
  apply owned.changes isNext _ _ tidy
  · rw [sameLocks]
    intro path owner _ held
    exact held
  · rw [sameLocks]
    exact own_of_fewer (owned.own pid) fewer

theorem Owned.stays (owned : Owned state) (isNext : next.processes = state.processes)
    (kept : ∀ path pid fd, (state.locks path).exclusive = some (.holder pid fd) →
      (next.locks path).exclusive = some (.holder pid fd)) : Owned next := by
  constructor
  · intro pid claim member
    rw [isNext] at member
    exact kept _ _ _ (owned.own pid claim member)
  · intro pid
    rw [isNext]
    exact owned.tidy pid

/-! ### A process's own books -/

theorem Tidy.congr (tidy : Tidy before) (keys : process.held.map Hold.key = before.held.map Hold.key)
    (fds : process.fds = before.fds)
    (acquiring : process.acquiring?.map Acquiring.key = before.acquiring?.map Acquiring.key)
    (opened : process.opened = before.opened) : Tidy process := by
  constructor
  · rw [fds]
    exact tidy.distinct
  · rw [fds, opened]
    exact tidy.opened
  · rw [keys]
    exact tidy.keys
  · intro one isOne
    rw [keys]
    have isKey : before.acquiring?.map Acquiring.key = some one.key := by
      rw [← acquiring, isOne]
      rfl
    obtain ⟨other, isOther, sameKey⟩ := Option.map_eq_some_iff.mp isKey
    rw [← sameKey]
    exact tidy.acquired other isOther

theorem amend_fields {change : Hold → Hold} (key : Key) (held : List Hold)
    (keeps : ∀ hold, (change hold).key = hold.key ∧ (change hold).fd = hold.fd) :
    (amend Hold.key key change held).map Hold.key = held.map Hold.key ∧
      (amend Hold.key key change held).map Hold.fd = held.map Hold.fd ∧
      (amend Hold.key key change held).map Hold.claim = held.map Hold.claim := by
  refine ⟨Log.amend_map (fun hold => (keeps hold).1) held,
    Log.amend_map (fun hold => (keeps hold).2) held, Log.amend_map (fun hold => ?_) held⟩
  unfold Hold.claim
  rw [(keeps hold).1, (keeps hold).2]

theorem acquiring?_some {acquiring : Acquiring}
    (isCritical : process.critical = some (.acquiring acquiring)) :
    process.acquiring? = some acquiring := by
  unfold Process.acquiring?
  rw [isCritical]

theorem tidy_leave (tidy : Tidy process) : Tidy { process with critical := none } := by
  have fewer : List.Sublist (Process.fds { process with critical := none }) process.fds := by
    unfold Process.fds
    apply List.Sublist.append_left
    exact nil_sublist _
  constructor
  · exact fewer.nodup tidy.distinct
  · intro fd member
    exact tidy.opened fd (fewer.subset member)
  · exact tidy.keys
  · intro acquiring isNone
    cases isNone

theorem claims_leave : Process.claims { process with critical := none } ⊆ process.claims := by
  unfold Process.claims
  apply List.Sublist.subset
  apply List.Sublist.append_left
  exact nil_sublist _

theorem owned_leave (owned : Owned state) : Owned (leave state pid) :=
  owned.moves rfl rfl claims_leave (tidy_leave (owned.tidy pid))

theorem tidy_onTo {acquiring : Acquiring} {stage : Stage} (tidy : Tidy process)
    (isCritical : process.critical = some (.acquiring acquiring)) :
    Tidy { process with critical := some (.acquiring { acquiring with stage := stage }) } := by
  have isAcquiring := acquiring?_some isCritical
  apply tidy.congr
  · rfl
  · unfold Process.fds
    rw [isAcquiring]
    rfl
  · rw [isAcquiring]
    rfl
  · rfl

theorem claims_onTo {acquiring : Acquiring} {stage : Stage} :
    ∀ claim ∈ Process.claims
        { process with critical := some (.acquiring { acquiring with stage := stage }) },
      claim ∈ Process.claims { process with critical := none } ∨
        (stage.locked = true ∧ claim = acquiring.claim) := by
  intro claim member
  rcases mem_append.mp member with before | own
  · exact .inl (mem_append_left _ before)
  · right
    obtain ⟨one, isOne, rfl⟩ := mem_map.mp own
    rw [Option.mem_toList] at isOne
    obtain ⟨same, locked⟩ := Option.filter_eq_some_iff.mp isOne
    cases same
    exact ⟨locked, rfl⟩

theorem mem_claims_acquiring {acquiring : Acquiring}
    (isCritical : process.critical = some (.acquiring acquiring))
    (locked : acquiring.stage.locked) : acquiring.claim ∈ process.claims := by
  apply mem_append_right
  apply mem_map_of_mem
  rw [Option.mem_toList]
  exact Option.filter_eq_some_iff.mpr ⟨acquiring?_some isCritical, locked⟩

theorem owned_onTo {acquiring : Acquiring} {stage : Stage} (owned : Owned state)
    (isCritical : (state.processes pid).critical = some (.acquiring acquiring))
    (locked : stage.locked → acquiring.stage.locked) :
    Owned (onTo state pid acquiring stage) := by
  refine owned.moves rfl rfl ?_ (tidy_onTo (owned.tidy pid) isCritical)
  intro claim member
  rcases claims_onTo claim member with before | ⟨isLocked, rfl⟩
  · exact claims_leave before
  · exact mem_claims_acquiring isCritical (locked isLocked)

theorem fd_of_claim {claim : Claim} (member : claim ∈ process.claims) : claim.fd ∈ process.fds := by
  rcases mem_append.mp member with inBooks | own
  · rcases mem_append.mp inBooks with inHeld | inLeaving
    · obtain ⟨hold, isHold, rfl⟩ := mem_map.mp inHeld
      exact mem_append_left _ (mem_append_left _ (mem_map_of_mem isHold))
    · obtain ⟨leaving, isLeaving, rfl⟩ := mem_map.mp inLeaving
      have isFd := mem_map_of_mem (f := Leaving.fd) (mem_filter.mp isLeaving).1
      exact mem_append_left _ (mem_append_right _ isFd)
  · obtain ⟨acquiring, isAcquiring, rfl⟩ := mem_map.mp own
    rw [Option.mem_toList] at isAcquiring
    apply mem_append_right
    apply mem_map_of_mem
    rw [Option.mem_toList]
    exact (Option.filter_eq_some_iff.mp isAcquiring).1

theorem fd_gone {rest : Process} (tidy : Tidy process)
    (without : process.fds.Perm (fd :: rest.fds)) : ∀ claim ∈ rest.claims, claim.fd ≠ fd := by
  intro claim member same
  have distinct := without.nodup_iff.mp tidy.distinct
  rw [nodup_cons, ← same] at distinct
  exact distinct.1 (fd_of_claim member)

theorem fds_leave {acquiring : Acquiring}
    (isCritical : process.critical = some (.acquiring acquiring)) :
    process.fds.Perm (acquiring.fd :: Process.fds { process with critical := none }) := by
  unfold Process.fds
  rw [acquiring?_some isCritical]
  simpa [Process.acquiring?] using
    perm_append_singleton acquiring.fd
      (process.held.map Hold.fd ++ process.leaving.map Leaving.fd)

theorem claims_insert {acquiring : Acquiring}
    (isCritical : process.critical = some (.acquiring acquiring))
    (locked : acquiring.stage.locked) :
    Process.claims { process with
      held := process.held ++ [⟨acquiring.key, acquiring.fd, 1, acquiring.thread, acquiring.info⟩]
      critical := none } ⊆ process.claims := by
  intro claim member
  have isClaim : claim ∈ process.held.map Hold.claim ∨ claim = acquiring.claim ∨
      claim ∈ (process.leaving.filter (fun leaving => leaving.stage.locked)).map Leaving.claim := by
    simpa [Process.claims, Process.acquiring?, or_assoc, Hold.claim, Acquiring.claim] using member
  rcases isClaim with inHeld | rfl | inLeaving
  · exact mem_append_left _ (mem_append_left _ inHeld)
  · exact mem_claims_acquiring isCritical locked
  · exact mem_append_left _ (mem_append_right _ inLeaving)

theorem tidy_insert {acquiring : Acquiring} (tidy : Tidy process)
    (isCritical : process.critical = some (.acquiring acquiring)) :
    Tidy { process with
      held := process.held ++ [⟨acquiring.key, acquiring.fd, 1, acquiring.thread, acquiring.info⟩]
      critical := none } := by
  have isAcquiring := acquiring?_some isCritical
  have same : List.Perm (Process.fds { process with
      held := process.held ++ [⟨acquiring.key, acquiring.fd, 1, acquiring.thread, acquiring.info⟩]
      critical := none }) process.fds := by
    unfold Process.fds
    rw [isAcquiring]
    have moved := (perm_append_singleton acquiring.fd (process.leaving.map Leaving.fd)).symm
    simpa [Process.acquiring?] using moved.append_left (process.held.map Hold.fd)
  constructor
  · exact same.nodup_iff.mpr tidy.distinct
  · intro fd member
    exact tidy.opened fd (same.mem_iff.mp member)
  · show (List.map Hold.key (process.held ++ _)).Nodup
    rw [map_append, map_singleton, nodup_append]
    refine ⟨tidy.keys, pairwise_singleton _ _, ?_⟩
    intro key isHeld other isNew same
    rw [same, mem_singleton.mp isNew] at isHeld
    exact tidy.acquired acquiring isAcquiring isHeld
  · intro one isNone
    cases isNone

theorem owned_acquireStep {acquiring : Acquiring} {fails : Bool} (owned : Owned state)
    (isCritical : (state.processes pid).critical = some (.acquiring acquiring)) :
    Owned (acquireStep state pid acquiring fails) := by
  have goes {next : State} {stage : Stage} (sameProcesses : next.processes = state.processes)
      (sameLocks : next.locks = state.locks)
      (locked : stage.locked = true → acquiring.stage.locked = true) :
      Owned (onTo next pid acquiring stage) := by
    refine owned_onTo (owned.stays sameProcesses ?_) (by rw [sameProcesses]; exact isCritical) locked
    rw [sameLocks]
    exact fun _ _ _ held => held
  rcases acquireStep_cases state pid acquiring fails with
    ⟨next, stage, turns, isStep⟩ | ⟨-, isStage, isStep⟩
  · rw [isStep]
    cases turns with
    | raises _ => exact owned_leave owned
    | takes tries lock isStage taken =>
      refine owned.changes rfl (othersKept_take taken) (own_take (owned.own pid) taken ?_)
        (tidy_onTo (owned.tidy pid) isCritical)
      intro claim member
      rcases claims_onTo claim member with before | ⟨-, isClaim⟩
      · exact .inl (claims_leave before)
      · exact .inr isClaim
    | unlocks _ =>
      refine owned.changes rfl othersKept_unlock (own_unlock (owned.own pid) claims_leave ?_)
        (tidy_leave (owned.tidy pid))
      exact fd_gone (owned.tidy pid) (fds_leave isCritical)
    | finds tries _ _ | retries _ tries _ => exact goes rfl rfl nofun
    | indexes index isStage =>
      have frame := index_frame state index
      exact goes frame.1 frame.2 (fun _ => by rw [isStage]; rfl)
    | asks _ isStage | begins _ isStage | skips _ isStage | marks isStage | looks isStage
      | forgets _ isStage | keeps _ isStage | empties isStage | writes isStage =>
        exact goes rfl rfl (fun _ => by rw [isStage]; rfl)
  · rw [isStep]
    exact owned.moves rfl rfl (claims_insert isCritical (by rw [isStage]; rfl))
      (tidy_insert (owned.tidy pid) isCritical)

theorem owned_holds {held : List Hold} {critical : Option Critical} (owned : Owned state)
    (fields : held.map Hold.key = (state.processes pid).held.map Hold.key ∧
      held.map Hold.fd = (state.processes pid).held.map Hold.fd ∧
      held.map Hold.claim = (state.processes pid).held.map Hold.claim)
    (idle : (state.processes pid).acquiring? = none)
    (stays : Process.acquiring? { state.processes pid with critical := critical } = none)
    (sameProcesses : next.processes = update state.processes pid
      { state.processes pid with held := held, critical := critical })
    (sameLocks : next.locks = state.locks) : Owned next := by
  obtain ⟨keys, fds, claims⟩ := fields
  have none_ : Process.acquiring?
      { state.processes pid with held := held, critical := critical } = none := stays
  refine owned.moves sameProcesses sameLocks ?_ ((owned.tidy pid).congr keys ?_ ?_ rfl)
  · unfold Process.claims
    rw [claims, idle, none_]
    exact .refl _
  · unfold Process.fds
    rw [fds, idle, none_]
  · rw [idle, none_]

theorem acquiring?_none (idle : process.critical = none) : process.acquiring? = none := by
  unfold Process.acquiring?
  rw [idle]

theorem owned_noteStep {noting : Noting} {fails : Bool} (owned : Owned state)
    (isCritical : (state.processes pid).critical = some (.noting noting)) :
    Owned (noteStep state pid noting fails) := by
  have idle : (state.processes pid).acquiring? = none := by
    unfold Process.acquiring?
    rw [isCritical]
  obtain ⟨next, held, further, notes, isStep⟩ := noteStep_cases state pid noting fails
  rw [isStep]
  cases notes with
  | writes key hold _ _ | skips _ key _ _ | ends _ _ =>
    exact owned_holds owned ⟨rfl, rfl, rfl⟩ idle rfl rfl rfl
  | empties key rest _ _ | fails key rest _ _ =>
    refine owned_holds owned ?_ idle rfl rfl rfl
    exact amend_fields key _ (fun _ => ⟨rfl, rfl⟩)

/-! ### A release -/

variable {leaving : Leaving} {earlier later : List Leaving}

theorem leaving_split {place : Nat} {all : List Leaving} (isThere : all[place]? = some leaving) :
    ∃ earlier later, all = earlier ++ leaving :: later ∧
      all.eraseIdx place = earlier ++ later ∧
      ∀ one, all.set place one = earlier ++ one :: later := by
  obtain ⟨inRange, isOne⟩ := List.getElem?_eq_some_iff.mp isThere
  refine ⟨all.take place, all.drop (place + 1), ?_, eraseIdx_eq_take_drop_succ .., ?_⟩
  · rw [← isOne, getElem_cons_drop, take_append_drop]
  · intro one
    rw [set_eq_take_append_cons_drop, if_pos inRange]

theorem fds_split (isSplit : process.leaving = earlier ++ leaving :: later) :
    process.fds.Perm (leaving.fd :: Process.fds { process with leaving := earlier ++ later }) := by
  unfold Process.fds
  rw [isSplit]
  have moved := @perm_middle _ leaving.fd
    (process.held.map Hold.fd ++ earlier.map Leaving.fd)
    (later.map Leaving.fd ++ process.acquiring?.toList.map Acquiring.fd)
  simpa [Process.acquiring?] using moved

theorem claims_split (isSplit : process.leaving = earlier ++ leaving :: later) :
    Process.claims { process with leaving := earlier ++ later } ⊆ process.claims := by
  intro claim member
  unfold Process.claims
  rw [isSplit]
  simp only [Process.claims, filter_append, map_append, mem_append] at member ⊢
  rcases member with (inHeld | inEarlier | inLater) | own
  · exact .inl (.inl inHeld)
  · exact .inl (.inr (.inl inEarlier))
  · refine .inl (.inr (.inr ?_))
    exact (List.Sublist.map _ (List.Sublist.filter _ (sublist_cons_self _ _))).subset inLater
  · exact .inr own

theorem claims_goes {stage : LeaveStage} (isSplit : process.leaving = earlier ++ leaving :: later)
    (locked : stage.locked → leaving.stage.locked) :
    Process.claims { process with leaving := earlier ++ { leaving with stage := stage } :: later } ⊆
      process.claims := by
  intro claim member
  unfold Process.claims
  rw [isSplit]
  simp only [Process.claims, filter_append, map_append, mem_append] at member ⊢
  rcases member with (inHeld | inEarlier | inLater) | own
  · exact .inl (.inl inHeld)
  · exact .inl (.inr (.inl inEarlier))
  · refine .inl (.inr (.inr ?_))
    obtain ⟨one, isOne, rfl⟩ := mem_map.mp inLater
    obtain ⟨inTail, isLocked⟩ := mem_filter.mp isOne
    rcases mem_cons.mp inTail with rfl | inLater
    · refine mem_map.mpr ⟨leaving, ?_, rfl⟩
      exact mem_filter.mpr ⟨.head _, locked isLocked⟩
    · exact mem_map_of_mem (mem_filter.mpr ⟨.tail _ inLater, isLocked⟩)
  · exact .inr own

theorem claims_closing :
    Process.claims
        { process with leaving := earlier ++ { leaving with stage := .closing } :: later } =
      Process.claims { process with leaving := earlier ++ later } := by
  simp [Process.claims, LeaveStage.locked, Process.acquiring?]

theorem tidy_goes {stage : LeaveStage} (tidy : Tidy process)
    (isSplit : process.leaving = earlier ++ leaving :: later) :
    Tidy { process with leaving := earlier ++ { leaving with stage := stage } :: later } := by
  refine tidy.congr rfl ?_ rfl rfl
  unfold Process.fds
  rw [isSplit]
  simp [Process.acquiring?]

theorem tidy_closed (tidy : Tidy process)
    (isSplit : process.leaving = earlier ++ leaving :: later) :
    Tidy { process with leaving := earlier ++ later } := by
  have same := fds_split isSplit
  constructor
  · exact (nodup_cons.mp (same.nodup_iff.mp tidy.distinct)).2
  · intro fd member
    exact tidy.opened fd (same.mem_iff.mpr (.tail _ member))
  · exact tidy.keys
  · exact tidy.acquired

theorem owned_goes {stage : LeaveStage} (owned : Owned state)
    (isSplit : (state.processes pid).leaving = earlier ++ leaving :: later)
    (locked : stage.locked → leaving.stage.locked)
    (sameProcesses : next.processes = update state.processes pid
      { state.processes pid with leaving := earlier ++ { leaving with stage := stage } :: later })
    (sameLocks : next.locks = state.locks) : Owned next :=
  owned.moves sameProcesses sameLocks (claims_goes isSplit locked)
    (tidy_goes (owned.tidy pid) isSplit)

theorem owned_leaveStep {place : Nat} {fails : Bool} (owned : Owned state)
    (isThere : (state.processes pid).leaving[place]? = some leaving) :
    Owned (leaveStep state pid place leaving fails) := by
  obtain ⟨earlier, later, isSplit, erased, isSet⟩ := leaving_split isThere
  have gone := fd_gone (owned.tidy pid) (fds_split isSplit)
  have fewer := claims_split isSplit
  obtain ⟨next, stage, leaves, isStep⟩ := leaveStep_cases state pid place leaving fails
  rw [isStep]
  cases leaves with
  | gives stage isStage _ =>
    rw [left, isSet]
    refine owned_goes owned isSplit (fun _ => ?_) rfl rfl
    cases isHere : leaving.stage with
    | closing => exact absurd isHere isStage
    | _ => rfl
  | empties isStage | unmarks isStage =>
    rw [left, isSet]
    exact owned_goes owned isSplit (fun _ => by rw [isStage]; rfl) rfl rfl
  | unlocks _ =>
    rw [left, isSet]
    refine owned.changes rfl othersKept_unlock (own_unlock (owned.own pid) ?_ ?_)
      (tidy_goes (owned.tidy pid) isSplit)
    · rw [claims_closing]
      exact fewer
    · rw [claims_closing]
      exact gone
  | closes _ _ =>
    rw [left, erased]
    exact owned.changes rfl othersKept_unlock (own_unlock (owned.own pid) fewer gone)
      (tidy_closed (owned.tidy pid) isSplit)

/-! ### The other steps -/

theorem not_held (isNone : process.find key = none) : key ∉ process.held.map Hold.key := by
  intro isHeld
  obtain ⟨hold, member, isKey⟩ := mem_map.mp isHeld
  have other := List.find?_eq_none.mp isNone hold member
  simp [isKey] at other

theorem tidy_acquire {acquiring : Acquiring} (tidy : Tidy process) (idle : process.critical = none)
    (isNone : process.find acquiring.key = none) (isNew : acquiring.fd = process.opened) :
    Tidy { process with
      critical := some (.acquiring acquiring)
      opened := process.opened + 1 } := by
  have fds : Process.fds { process with
      critical := some (.acquiring acquiring)
      opened := process.opened + 1 } = process.fds ++ [acquiring.fd] := by
    simp [Process.fds, Process.acquiring?, idle]
  constructor
  · rw [fds, nodup_append]
    refine ⟨tidy.distinct, pairwise_singleton _ _, ?_⟩
    intro fd isOpen new isNewFd same
    have below := tidy.opened fd isOpen
    rw [same, mem_singleton.mp isNewFd, isNew] at below
    omega
  · rw [fds]
    intro fd member
    show fd < process.opened + 1
    rcases mem_append.mp member with isOpen | isNewFd
    · have below := tidy.opened fd isOpen
      omega
    · rw [mem_singleton.mp isNewFd, isNew]
      omega
  · exact tidy.keys
  · intro one isOne
    cases isOne
    exact not_held isNone

theorem owned_amend {change : Hold → Hold} (owned : Owned state)
    (idle : (state.processes pid).critical = none)
    (sameProcesses : next.processes = update state.processes pid
      { state.processes pid with held := amend Hold.key key change (state.processes pid).held })
    (sameLocks : next.locks = state.locks)
    (keeps : ∀ hold, (change hold).key = hold.key ∧ (change hold).fd = hold.fd) : Owned next :=
  owned_holds owned (amend_fields key _ keeps) (acquiring?_none idle) (acquiring?_none idle)
    sameProcesses sameLocks

theorem held_split (tidy : Tidy process) (isFound : process.find key = some hold) :
    process.held.Perm (hold :: process.held.filter (fun other => other.key ≠ key)) := by
  obtain ⟨isHeld, isKey⟩ := find_some isFound
  have distinct : process.held.Nodup := List.Nodup.of_map Hold.key tidy.keys
  refine (perm_ext_iff_of_nodup distinct ?_).mpr ?_
  rotate_left
  · intro other
    constructor
    · intro member
      by_cases sameKey : other.key = key
      · have same := inj_on_of_nodup_map tidy.keys member isHeld (sameKey.trans isKey.symm)
        rw [same]
        exact .head _
      · exact .tail _ (mem_filter.mpr ⟨member, by simpa using sameKey⟩)
    · intro member
      rcases mem_cons.mp member with rfl | isOther
      · exact isHeld
      · exact (mem_filter.mp isOther).1
  · rw [nodup_cons]
    refine ⟨?_, distinct.filter _⟩
    intro member
    have other := (mem_filter.mp member).2
    simp [isKey] at other

theorem tidy_pop (tidy : Tidy process) (isFound : process.find key = some hold) :
    Tidy { process with
      held := process.held.filter (fun other => other.key ≠ key)
      leaving := process.leaving ++ [⟨key, hold.fd, .emptying⟩] } := by
  have fewer : List.Sublist (process.held.filter (fun other => other.key ≠ key)) process.held :=
    filter_sublist
  have same : List.Perm (Process.fds { process with
      held := process.held.filter (fun other => other.key ≠ key)
      leaving := process.leaving ++ [⟨key, hold.fd, .emptying⟩] }) process.fds := by
    refine List.Perm.trans ?_
      (((held_split tidy isFound).map Hold.fd).symm.append_right
        (process.leaving.map Leaving.fd) |>.append_right _)
    have moved := @perm_middle _ hold.fd
      ((process.held.filter (fun other => other.key ≠ key)).map Hold.fd ++
        process.leaving.map Leaving.fd) (process.acquiring?.toList.map Acquiring.fd)
    simpa [Process.fds, Process.acquiring?] using moved
  constructor
  · exact same.nodup_iff.mpr tidy.distinct
  · intro fd member
    exact tidy.opened fd (same.mem_iff.mp member)
  · exact (fewer.map Hold.key).nodup tidy.keys
  · intro one isOne isHeld
    exact tidy.acquired one isOne ((fewer.map Hold.key).subset isHeld)

theorem claims_pop (isFound : process.find key = some hold) :
    Process.claims { process with
      held := process.held.filter (fun other => other.key ≠ key)
      leaving := process.leaving ++ [⟨key, hold.fd, .emptying⟩] } ⊆ process.claims := by
  obtain ⟨isHeld, isKey⟩ := find_some isFound
  intro claim member
  simp only [Process.claims, filter_append, map_append, mem_append] at member ⊢
  rcases member with (inHeld | inLeaving | isPopped) | own
  · exact .inl (.inl ((filter_sublist.map _).subset inHeld))
  · exact .inl (.inr inLeaving)
  · refine .inl (.inl (mem_map.mpr ⟨hold, isHeld, ?_⟩))
    have isClaim : claim = ⟨key.path, hold.fd⟩ := by
      simpa [LeaveStage.locked, Leaving.claim] using isPopped
    rw [isClaim, Hold.claim, isKey]
  · exact .inr own

theorem owned_die (owned : Owned state) : Owned (die state pid) := by
  apply owned.changes rfl
  · intro path owner isOther held
    exact Flock.drop_exclusive held (by simpa using isOther)
  · intro claim member
    cases member
  · constructor
    · exact nodup_nil
    · intro fd member
      cases member
    · exact nodup_nil
    · intro one isOne
      cases isOne

theorem owned_setLock {lock : Flock Owner} (owned : Owned state)
    (kept : ∀ holder fd, (state.locks path).exclusive = some (.holder holder fd) →
      lock.exclusive = some (.holder holder fd)) : Owned (state.setLock path lock) := by
  refine owned.stays rfl ?_
  intro other holder fd held
  by_cases isPath : other = path
  · subst isPath
    show (update state.locks other lock other).exclusive = _
    rw [update_self]
    exact kept holder fd held
  · show (update state.locks path lock other).exclusive = _
    rw [update_of_ne isPath]
    exact held

theorem owned_step (state : State) (event : Event) (owned : Owned state) :
    Owned (step state event) := by
  have outcome := outcome_step state event
  generalize step state event = next at outcome ⊢
  cases outcome with
  | stays => exact owned
  | amends _ pid key change idle keeps =>
    exact owned_amend owned idle rfl rfl (fun hold => ⟨(keeps hold).1, (keeps hold).2.1⟩)
  | opens pid thread key asked names idle isNone _ _ =>
    refine owned.moves rfl rfl ?_ (tidy_acquire (owned.tidy pid) idle isNone rfl)
    intro claim member
    have isClaim : claim ∈ Process.claims { state.processes pid with critical := none } := by
      simpa [Process.claims, Process.acquiring?, Stage.locked] using member
    exact claims_leave isClaim
  | acquires pid fails acquiring isCritical => exact owned_acquireStep owned isCritical
  | notes pid fails noting isCritical => exact owned_noteStep owned isCritical
  | pops pid thread key hold idle isFound =>
    exact owned.moves rfl rfl (claims_pop isFound) (tidy_pop (owned.tidy pid) isFound)
  | leaves pid place fails leaving isThere => exact owned_leaveStep owned isThere
  | begins pid thread device step_ now idle =>
    exact owned_holds owned ⟨rfl, rfl, rfl⟩ (acquiring?_none idle) rfl rfl rfl
  | probes pid fd path lock taken =>
    refine owned_setLock owned (fun holder _ held => ?_)
    rw [Flock.lockShared_exclusive taken]
    exact held
  | unprobes pid fd path =>
    exact owned_setLock owned (fun _ _ held => Flock.unlock_exclusive held (by simp))
  | indexers => exact owned.stays rfl (fun _ _ _ held => held)
  | indexes _ index =>
    refine owned.stays (index_frame state index).1 (fun _ _ _ held => ?_)
    rw [← (index_frame state index).2] at held
    exact held
  | dies pid => exact owned_die owned

theorem owned_begin (contents : Path → Option Info) (marks : Path → Bool)
    (folders : Str → Folder) : Owned (begin_ contents marks folders) := by
  constructor
  · intro pid claim member
    cases member
  · intro pid
    constructor
    · exact nodup_nil
    · intro fd member
      cases member
    · exact nodup_nil
    · intro one isOne
      cases isOne

end Nmas.Holds
