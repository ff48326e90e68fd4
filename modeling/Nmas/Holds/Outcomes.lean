import Nmas.Holds.DeviceOps

/-!
Contract: all that a step can do, case by case.

Owns:
- what a turn of `acquire`, of `note` and of `release` makes of the files and of
  its process;
- the outcomes of every event.
-/

namespace Nmas.Holds

open Nmas.Text List
open Nmas.Log (amend)
open Nmas.Os (Flock)

variable {state next : State} {pid place : Nat} {acquiring : Acquiring} {noting : Noting}
  {leaving : Leaving} {fails : Bool} {stage : Option Stage} {process : Process} {event : Event}

/-! ### A turn of `acquire` -/

inductive Turns (state : State) (pid : Nat) (acquiring : Acquiring) :
    Bool → State → Option Stage → Prop where
  | raises (fails : Bool) : Turns state pid acquiring fails state none
  | takes (tries : Nat) (lock : Flock Owner) (isStage : acquiring.stage = .locking tries)
      (taken : (state.locks acquiring.key.path).lockExclusive (.holder pid acquiring.fd) =
        some lock) :
      Turns state pid acquiring false (state.setLock acquiring.key.path lock) (some .asking)
  | finds (tries : Nat) (isStage : acquiring.stage = .locking tries)
      (isHeld : (state.locks acquiring.key.path).lockExclusive (.holder pid acquiring.fd) = none) :
      Turns state pid acquiring false state (some (.blocked tries))
  | retries (fails : Bool) (tries : Nat) (isStage : acquiring.stage = .blocked tries) :
      Turns state pid acquiring fails state (some (.locking (tries + 1)))
  | asks (fails : Bool) (isStage : acquiring.stage = .asking) :
      Turns state pid acquiring fails state (some .marking)
  | begins (fails : Bool) (isStage : acquiring.stage = .asking) :
      Turns state pid acquiring fails state
        (some (.indexing ⟨acquiring.key.path.folder, none, none⟩))
  | skips (index : Index) (isStage : acquiring.stage = .indexing index) :
      Turns state pid acquiring true state (some .marking)
  | indexes (index : Index) (isStage : acquiring.stage = .indexing index) :
      Turns state pid acquiring false (index.step state).1
        (some (((index.step state).2.map Stage.indexing).getD .marking))
  | unlocks (isStage : acquiring.stage = .marking) :
      Turns state pid acquiring true (state.setLock acquiring.key.path
        ((state.locks acquiring.key.path).unlock (.holder pid acquiring.fd))) none
  | marks (isStage : acquiring.stage = .marking) :
      Turns state pid acquiring false (state.setMark acquiring.key.path true) (some .looking)
  | looks (isStage : acquiring.stage = .looking) :
      Turns state pid acquiring false state
        (some (((state.contents acquiring.key.path).map Stage.keeping).getD .emptying))
  | forgets (left : Info) (isStage : acquiring.stage = .keeping left) :
      Turns state pid acquiring true state (some .emptying)
  | keeps (left : Info) (isStage : acquiring.stage = .keeping left) :
      Turns state pid acquiring false (state.setFolder acquiring.key.path.folder
        { state.folders acquiring.key.path.folder with
          kept := (state.folders acquiring.key.path.folder).kept ++ [left] }) (some .emptying)
  | empties (isStage : acquiring.stage = .emptying) :
      Turns state pid acquiring false (state.setContent acquiring.key.path none) (some .writing)
  | writes (isStage : acquiring.stage = .writing) :
      Turns state pid acquiring false (state.setContent acquiring.key.path (some acquiring.info))
        (some .syncing)

def settle (next : State) (pid : Nat) (acquiring : Acquiring) : Option Stage → State
  | some stage => onTo next pid acquiring stage
  | none => leave next pid

/-- The hold an `acquire` ends with. -/
def Acquiring.hold (acquiring : Acquiring) : Hold :=
  ⟨acquiring.key, acquiring.fd, 1, acquiring.thread, acquiring.info⟩

theorem acquireStep_cases (state : State) (pid : Nat) (acquiring : Acquiring) (fails : Bool) :
    (∃ next stage, Turns state pid acquiring fails next stage ∧
      acquireStep state pid acquiring fails = settle next pid acquiring stage) ∨
    (fails = false ∧ acquiring.stage = .syncing ∧
      acquireStep state pid acquiring fails = state.setProcess pid { state.processes pid with
        held := (state.processes pid).held ++ [acquiring.hold]
        critical := none }) := by
  unfold acquireStep
  cases isStage : acquiring.stage with
  | locking tries =>
    left
    cases fails with
    | true => exact ⟨_, _, .raises _, rfl⟩
    | false =>
      dsimp only
      rw [if_neg Bool.false_ne_true]
      split
      · exact ⟨_, _, .takes tries _ isStage ‹_›, rfl⟩
      · exact ⟨_, _, .finds tries isStage ‹_›, rfl⟩
  | blocked tries =>
    left
    dsimp only
    split <;> split
    · exact ⟨_, _, .raises _, rfl⟩
    · exact ⟨_, _, .retries _ tries isStage, rfl⟩
    · exact ⟨_, _, .raises _, rfl⟩
    · exact ⟨_, _, .retries _ tries isStage, rfl⟩
  | asking =>
    left
    dsimp only
    split
    · exact ⟨_, _, .asks _ isStage, rfl⟩
    · exact ⟨_, _, .begins _ isStage, rfl⟩
  | indexing index =>
    left
    cases fails with
    | true => exact ⟨_, _, .skips index isStage, rfl⟩
    | false =>
      refine ⟨_, _, .indexes index isStage, ?_⟩
      dsimp only
      rw [if_neg Bool.false_ne_true]
      obtain ⟨next, further⟩ := index.step state
      cases further <;> rfl
  | marking =>
    left
    cases fails with
    | true => exact ⟨_, _, .unlocks isStage, rfl⟩
    | false => exact ⟨_, _, .marks isStage, rfl⟩
  | looking =>
    left
    cases fails with
    | true => exact ⟨_, _, .raises _, rfl⟩
    | false =>
      refine ⟨_, _, .looks isStage, ?_⟩
      dsimp only
      rw [if_neg Bool.false_ne_true]
      cases state.contents acquiring.key.path <;> rfl
  | keeping left =>
    left
    cases fails with
    | true => exact ⟨_, _, .forgets left isStage, rfl⟩
    | false => exact ⟨_, _, .keeps left isStage, rfl⟩
  | emptying =>
    left
    cases fails with
    | true => exact ⟨_, _, .raises _, rfl⟩
    | false => exact ⟨_, _, .empties isStage, rfl⟩
  | writing =>
    left
    cases fails with
    | true => exact ⟨_, _, .raises _, rfl⟩
    | false => exact ⟨_, _, .writes isStage, rfl⟩
  | syncing =>
    cases fails with
    | true => exact .inl ⟨_, _, .raises _, rfl⟩
    | false => exact .inr ⟨rfl, rfl, rfl⟩

theorem setProcess_processes (same : next.processes = state.processes) :
    (next.setProcess pid process).processes = Function.update state.processes pid process := by
  rw [← same]
  rfl

theorem index_frame (state : State) (index : Index) :
    (index.step state).1.processes = state.processes ∧
      (index.step state).1.locks = state.locks := by
  unfold Index.step
  split <;> exact ⟨rfl, rfl⟩

theorem Turns.processes (turns : Turns state pid acquiring fails next stage) :
    next.processes = state.processes := by
  cases turns with
  | indexes index isStage => exact (index_frame state index).1
  | _ => rfl

theorem settle_processes (turns : Turns state pid acquiring fails next stage) :
    (settle next pid acquiring stage).processes =
      Function.update state.processes pid { state.processes pid with
        critical := stage.map (fun stage => .acquiring { acquiring with stage := stage }) } := by
  rw [← turns.processes]
  cases stage <;> rfl

/-! ### A turn of `note` -/

/-- What a turn makes of the files, and of the holds and the `note` itself; it is
over where nothing is left of it. -/
inductive Notes (state : State) (pid : Nat) (noting : Noting) :
    Bool → State → List Hold → Option Noting → Prop where
  | writes (key : Key) (hold : Hold) (isWriting : noting.writing = some key)
      (isFound : (state.processes pid).find key = some hold) :
      Notes state pid noting false (state.setContent key.path (some hold.info))
        (state.processes pid).held (some { noting with writing := none })
  | skips (fails : Bool) (key : Key) (isWriting : noting.writing = some key)
      (isSkipped : fails = true ∨ (state.processes pid).find key = none) :
      Notes state pid noting fails state (state.processes pid).held
        (some { noting with writing := none })
  | empties (key : Key) (rest : List Key) (isIdle : noting.writing = none)
      (isRest : noting.rest = key :: rest) :
      Notes state pid noting false (state.setContent key.path none)
        (amend Hold.key key
          (fun hold => { hold with info := hold.info.noted noting.step_ noting.now })
          (state.processes pid).held)
        (some { noting with writing := some key, rest := rest })
  | fails (key : Key) (rest : List Key) (isIdle : noting.writing = none)
      (isRest : noting.rest = key :: rest) :
      Notes state pid noting true state
        (amend Hold.key key
          (fun hold => { hold with info := hold.info.noted noting.step_ noting.now })
          (state.processes pid).held)
        (some { noting with writing := none, rest := rest })
  | ends (fails : Bool) (isRest : noting.rest = []) :
      Notes state pid noting fails state (state.processes pid).held none

theorem noteStep_cases (state : State) (pid : Nat) (noting : Noting) (fails : Bool) :
    ∃ next held further, Notes state pid noting fails next held further ∧
      noteStep state pid noting fails = next.setProcess pid { state.processes pid with
        held := held
        critical := further.map .noting } := by
  obtain ⟨step_, now, writing, rest⟩ := noting
  unfold noteStep
  cases writing with
  | some key =>
    dsimp only
    cases isFound : (state.processes pid).find key with
    | none => exact ⟨_, _, _, .skips fails key rfl (.inr isFound), rfl⟩
    | some hold =>
      cases fails with
      | true => exact ⟨_, _, _, .skips true key rfl (.inl rfl), rfl⟩
      | false => exact ⟨_, _, _, .writes key hold rfl isFound, rfl⟩
  | none =>
    cases rest with
    | nil => exact ⟨_, _, _, .ends fails rfl, rfl⟩
    | cons key rest =>
      cases fails with
      | true => exact ⟨_, _, _, .fails key rest rfl rfl, rfl⟩
      | false => exact ⟨_, _, _, .empties key rest rfl rfl, rfl⟩

theorem Notes.processes {held : List Hold} {further : Option Noting}
    (notes : Notes state pid noting fails next held further) : next.processes = state.processes := by
  cases notes <;> rfl

/-! ### A turn of `release` -/

/-- What a turn makes of the files, and the stage it comes to; none once the file
is closed. -/
inductive Leaves (state : State) (pid : Nat) (leaving : Leaving) :
    Bool → State → Option LeaveStage → Prop where
  | gives (stage : LeaveStage) (isStage : leaving.stage ≠ .closing)
      (isLate : stage = .closing ∨ leaving.stage = .unmarking ∧ stage = .unlocking) :
      Leaves state pid leaving true state (some stage)
  | empties (isStage : leaving.stage = .emptying) :
      Leaves state pid leaving false (state.setContent leaving.key.path none) (some .unmarking)
  | unmarks (isStage : leaving.stage = .unmarking) :
      Leaves state pid leaving false (state.setMark leaving.key.path false) (some .unlocking)
  | unlocks (isStage : leaving.stage = .unlocking) :
      Leaves state pid leaving false (state.setLock leaving.key.path
        ((state.locks leaving.key.path).unlock (.holder pid leaving.fd))) (some .closing)
  | closes (fails : Bool) (isStage : leaving.stage = .closing) :
      Leaves state pid leaving fails (state.setLock leaving.key.path
        ((state.locks leaving.key.path).unlock (.holder pid leaving.fd))) none

theorem Leaves.processes {stage : Option LeaveStage}
    (leaves : Leaves state pid leaving fails next stage) : next.processes = state.processes := by
  cases leaves <;> rfl

def left (all : List Leaving) (place : Nat) (leaving : Leaving) : Option LeaveStage → List Leaving
  | some stage => all.set place { leaving with stage := stage }
  | none => all.eraseIdx place

theorem leaveStep_cases (state : State) (pid place : Nat) (leaving : Leaving) (fails : Bool) :
    ∃ next stage, Leaves state pid leaving fails next stage ∧
      leaveStep state pid place leaving fails = next.setProcess pid { state.processes pid with
        leaving := left (state.processes pid).leaving place leaving stage } := by
  unfold leaveStep
  cases isStage : leaving.stage with
  | emptying =>
    cases fails with
    | true => exact ⟨_, _, .gives .closing (by simp [isStage]) (.inl rfl), rfl⟩
    | false => exact ⟨_, _, .empties isStage, rfl⟩
  | unmarking =>
    cases fails with
    | true => exact ⟨_, _, .gives .unlocking (by simp [isStage]) (.inr ⟨isStage, rfl⟩), rfl⟩
    | false => exact ⟨_, _, .unmarks isStage, rfl⟩
  | unlocking =>
    cases fails with
    | true => exact ⟨_, _, .gives .closing (by simp [isStage]) (.inl rfl), rfl⟩
    | false => exact ⟨_, _, .unlocks isStage, rfl⟩
  | closing => exact ⟨_, _, .closes fails isStage, rfl⟩

/-! ### Every event -/

inductive Outcome (state : State) : Event → State → Prop where
  | stays (event : Event) : Outcome state event state
  /-- An entry of `_held` amended in its place, by a call in `_mu`. -/
  | amends (event : Event) (pid : Nat) (key : Key) (change : Hold → Hold)
      (idle : (state.processes pid).critical = none)
      (keeps : ∀ hold, (change hold).key = hold.key ∧ (change hold).fd = hold.fd ∧
        (change hold).info = hold.info) :
      Outcome state event (state.setProcess pid { state.processes pid with
        held := amend Hold.key key change (state.processes pid).held })
  | opens (pid thread : Nat) (key : Key) (asked : Asked) (names : List Str)
      (idle : (state.processes pid).critical = none)
      (isNone : (state.processes pid).find key = none)
      (isMore : (state.folders key.path.folder).names ⊆ names) (isListed : key.path.name ∈ names) :
      Outcome state (.acquire pid thread key asked)
        ((state.setFolder key.path.folder
          { state.folders key.path.folder with names := names }).setProcess pid
            { state.processes pid with
              critical := some (.acquiring
                ⟨thread, key, (state.processes pid).opened, asked.info pid key, .locking 0⟩)
              opened := (state.processes pid).opened + 1 })
  | acquires (pid : Nat) (fails : Bool) (acquiring : Acquiring)
      (isCritical : (state.processes pid).critical = some (.acquiring acquiring)) :
      Outcome state (.goesOn pid fails) (acquireStep state pid acquiring fails)
  | notes (pid : Nat) (fails : Bool) (noting : Noting)
      (isCritical : (state.processes pid).critical = some (.noting noting)) :
      Outcome state (.goesOn pid fails) (noteStep state pid noting fails)
  | pops (pid thread : Nat) (key : Key) (hold : Hold)
      (idle : (state.processes pid).critical = none)
      (isFound : (state.processes pid).find key = some hold) :
      Outcome state (.release pid thread key) (state.setProcess pid { state.processes pid with
        held := (state.processes pid).held.filter (fun hold => hold.key ≠ key)
        leaving := (state.processes pid).leaving ++ [⟨key, hold.fd, .emptying⟩] })
  | leaves (pid place : Nat) (fails : Bool) (leaving : Leaving)
      (isThere : (state.processes pid).leaving[place]? = some leaving) :
      Outcome state (.leaves pid place fails) (leaveStep state pid place leaving fails)
  | begins (pid thread : Nat) (device : Option Str) (step_ : Str) (now : Heal.Clock)
      (idle : (state.processes pid).critical = none) :
      Outcome state (.note pid thread device step_ now)
        (state.setProcess pid { state.processes pid with
          critical := some (.noting ⟨step_, now, none,
            (state.processes pid).noted thread device⟩) })
  | probes (pid fd : Nat) (path : Path) (lock : Flock Owner)
      (taken : (state.locks path).lockShared (.reader pid fd) = some lock) :
      Outcome state (.probe pid fd path) (state.setLock path lock)
  | unprobes (pid fd : Nat) (path : Path) :
      Outcome state (.unprobe pid fd path)
        (state.setLock path ((state.locks path).unlock (.reader pid fd)))
  /-- An index begun, or given up. -/
  | indexers (event : Event) (indexers : List Index)
      (isIndex : ∀ one ∈ indexers, one ∈ state.indexers ∨ ∃ folder, one = ⟨folder, none, none⟩) :
      Outcome state event { state with indexers := indexers }
  | indexes (event : Event) (index : Index) (indexers : List Index)
      (isIndex : index ∈ state.indexers)
      (isMore : ∀ one ∈ indexers, one ∈ state.indexers ∨ (index.step state).2 = some one) :
      Outcome state event { (index.step state).1 with indexers := indexers }
  | dies (pid : Nat) : Outcome state (.dies pid) (die state pid)

theorem outcome_step (state : State) (event : Event) : Outcome state event (step state event) := by
  cases event with
  | acquire pid thread key asked =>
    unfold step acquire
    dsimp only
    split
    · exact .stays _
    · rename_i idle
      split
      · split
        · exact .amends _ pid key _ idle (fun _ => ⟨rfl, rfl, rfl⟩)
        · exact .stays _
      · rename_i isNone
        refine .opens pid thread key asked _ idle isNone ?_ ?_
        · split
          · exact .refl _
          · exact subset_append_left _ _
        · split
          · assumption
          · exact mem_append_right _ (.head _)
  | goesOn pid fails =>
    unfold step
    dsimp only
    split
    · exact .stays _
    · exact .acquires pid fails _ ‹_›
    · exact .notes pid fails _ ‹_›
  | release pid thread key =>
    unfold step release
    dsimp only
    split
    · exact .stays _
    · split
      · exact .stays _
      · split
        · exact .stays _
        · split
          · exact .amends _ pid key _ ‹_› (fun _ => ⟨rfl, rfl, rfl⟩)
          · exact .pops pid thread key _ ‹_› ‹_›
  | leaves pid place fails =>
    unfold step
    dsimp only
    split
    · exact .stays _
    · exact .leaves pid place fails _ ‹_›
  | handOver pid thread key to_ =>
    unfold step handOver
    dsimp only
    split
    · exact .stays _
    · split
      · exact .stays _
      · split
        · exact .stays _
        · exact .amends _ pid key _ ‹_› (fun _ => ⟨rfl, rfl, rfl⟩)
  | note pid thread device step_ now =>
    unfold step
    dsimp only
    split
    · exact .stays _
    · exact .begins pid thread device step_ now ‹_›
  | probe pid fd path =>
    unfold step
    dsimp only
    split
    · exact .probes pid fd path _ ‹_›
    · exact .stays _
  | unprobe pid fd path => exact .unprobes pid fd path
  | index folder =>
    refine .indexers _ _ ?_
    intro one isOne
    rcases mem_append.mp isOne with before | isNew
    · exact .inl before
    · exact .inr ⟨folder, mem_singleton.mp isNew⟩
  | indexes place fails =>
    unfold step
    dsimp only
    split
    · exact .stays _
    · rename_i index isThere
      have isIndex := mem_of_getElem? isThere
      have fewer : state.indexers.eraseIdx place ⊆ state.indexers :=
        (eraseIdx_sublist _ _).subset
      split
      · exact .indexers _ _ (fun one isOne => .inl (fewer isOne))
      · split
        · rename_i next further isNext
          have outcome := Outcome.indexes (.indexes place fails) index
            (state.indexers.set place further) isIndex (fun one isOne =>
              (mem_or_eq_of_mem_set isOne).imp id (fun same => by rw [isNext, same]))
          rwa [isNext] at outcome
        · rename_i next isNext
          have outcome := Outcome.indexes (.indexes place fails) index
            (state.indexers.eraseIdx place) isIndex (fun one isOne => .inl (fewer isOne))
          rwa [isNext] at outcome
  | dies pid => exact .dies pid

end Nmas.Holds
