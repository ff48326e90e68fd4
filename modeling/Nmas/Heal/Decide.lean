import Nmas.Heal.Guards

/-!
Contract: a decision pass of a network, with its stores changing under it.

Owns: `heal/decide.py`: `decide_one` in its order, and `run` as the steps between
its accesses to the incidents and the decisions. One pass is in flight at a time
(`HealLock`); between two of its steps any other change of the incidents, and any
row but a decision, may land.

Does not own: what the sources answer (`Answers`), the step log and the words.
-/

namespace Nmas.Heal

open Nmas.Text

namespace Decide

/-- What a decision's sources answer of its device. -/
structure Answers where
  /-- `refusal_for` names a reason not to heal the device. -/
  refused : Bool
  golden : Golden
  topology : Option (Option Clock)
  clock : Clock
  /-- A trigger of the incident names an interface. -/
  link : Bool
  /-- The fresh read's departure, where the read was made. -/
  departure : Option Str
  /-- Committed intent renders. -/
  intended : Bool
  classified : Classified
  programHash : Str
  /-- The program refuses a unit. -/
  programRefused : Bool
  /-- The program would cut Mercury's reach, or whether it does is not known. -/
  reachLost : Bool

def symptom (inc : Incident) (link : Bool) : Option FixKind :=
  if link ∨ inc.triggers.any (fun trigger => trigger.kind = .adjacency) then some .physical
  else if inc.triggers.any (fun trigger =>
      trigger.kind = .alert ∨ trigger.kind = .adjacencyLog ∨ trigger.kind = .duplicateRouterId) then
    some .unknownCause
  else none

/-- `_outcome`: guard 13, the tier. -/
def outcomeOf (policy : Policy) (classified : Classified) : Outcome :=
  let kinds := classified.units.map FixUnit.kind
  if classified.tier ≥ 3 ∨ classified.blocked then .cantFix
  else if classified.tier = 2 then
    if kinds.any (fun kind => !policy.kindsPropose.contains kind && kind.tier = 2) then .cantFix
    else .propose
  else if policy.mode = .auto ∧ kinds.all policy.kindsAuto.contains then .heal
  else .wouldHeal

def settledDeparture (inc : Incident) : Str :=
  (inc.settled.map (fun settled => settled.operands.departure)).getD []

/-- The outcome the rates count: `outcome_counted`. -/
def counts (mode : HealMode) : Outcome := if mode = .auto then .heal else .wouldHeal

def firstHit (guards : List (Option Hit)) : Option Hit := guards.findSome? id

/-- `base`, before anything was found. -/
def base (inc : Incident) (mode : HealMode) : Made where
  incident := inc.id
  device := inc.device
  outcome := .nothing
  mode := mode
  guard := none
  kind := none
  tier := 0
  departure := []
  programHash := []
  until_ := none

def stop (made : Made) (hit : Hit) : Made :=
  { made with outcome := hit.outcome, guard := some hit.guard, until_ := hit.until_ }

def stops (policy : Policy) (halt : Option (Option Halt)) (planned : Planned) (now : Clock) :
    Option Hit :=
  firstHit [Guards.g1KillSwitch policy, Guards.g2Mode policy halt, Guards.g3Planned planned now]

def guards (inc : Incident) (policy : Policy) (answers : Answers) (incidents : List Incident)
    (rows : List Record) (now : Clock) : Option Hit :=
  let limits := policy.limits
  let outcome := counts policy.mode
  let graceSeconds : Clock := if limits.graceSeconds = 0 then 900 else limits.graceSeconds
  firstHit [
    Guards.g5Topology answers.topology now,
    Guards.g6Many incidents now graceSeconds limits.maxDevicesDrifting,
    Guards.g7Person inc now limits.personWorkingChanges limits.personWorkingMinutes,
    Guards.g8Grace inc answers.clock,
    Guards.g9DeviceRate rows inc.device outcome now limits.maxPerDeviceHour,
    Guards.g10NetworkRate rows outcome now limits.maxPerNetworkHour,
    Guards.g11Repeat rows inc.device (settledDeparture inc) outcome now limits.repeatHaltsHours]

/-- `decide_one` once the device was read and its units are classed. -/
def propose (made : Made) (policy : Policy) (answers : Answers) (rows : List Record)
    (lastHaltEpoch : Clock) : Made :=
  let classified := answers.classified
  let made := { made with kind := some classified.kind, tier := classified.tier }
  if classified.units = [] then { made with outcome := .nothing }
  else
    match firstHit [Guards.g12Size classified.units policy.limits.maxRemovedUnits
        policy.limits.maxUnits, Guards.g14RolledBack rows made.device lastHaltEpoch] with
    | some hit => stop made hit
    | none =>
      if classified.tier < 3 ∧ ¬ classified.blocked then
        let made := { made with programHash := answers.programHash }
        if answers.programRefused then { made with outcome := .cantFix }
        else if answers.reachLost then
          { made with kind := some .managementPath, tier := 4, outcome := .cantFix }
        else { made with outcome := outcomeOf policy classified }
      else { made with outcome := outcomeOf policy classified }

/-- `decide_one` from guard 4 on; `record` is nothing where the decisions cannot
be read. -/
def judge (inc : Incident) (policy : Policy) (answers : Answers) (incidents : List Incident)
    (record : Option (List Row)) (now : Clock) : Made :=
  let made := base inc policy.mode
  if answers.refused then stop made ⟨4, .held, none⟩
  else
    match Guards.g4Golden answers.golden with
    | some hit => stop made hit
    | none =>
      match record with
      | none => stop made ⟨10, .halted, none⟩
      | some rows =>
        match guards inc policy answers incidents (decisions rows) now with
        | some hit => stop made hit
        | none =>
          if inc.settled.map Settled.how = some .atGolden then
            match symptom inc answers.link with
            | some kind => { made with kind := some kind, tier := 3, outcome := .cantFix }
            | none => { made with outcome := .nothing }
          else
            match answers.departure with
            | none => { made with outcome := .deferred, until_ := some (now + 60) }
            | some departure =>
              let made := { made with departure := departure }
              let settled := settledDeparture inc
              if settled ≠ [] ∧ departure ≠ settled then
                { made with outcome := .deferred, until_ := some now }
              else if ¬ answers.intended then { made with outcome := .cantFix }
              else propose made policy answers (decisions rows) (lastHaltEpoch rows)

/-! ### The pass -/

/-- Where a pass is with an incident it has claimed. -/
inductive Stage where
  | between
  | stopping (inc : Incident)
  | judging (inc : Incident) (policy : Policy)
  | recording (inc : Incident) (made : Made)
  | halting (decision : Decision)
  | settling (decision : Decision)
  /-- The decision failed: its incident goes back. -/
  | failing (incident : Str)

structure Pass where
  now : Clock
  stage : Stage
  rest : List Incident

structure State where
  incidents : List Incident
  rows : List Row
  pass : Option Pass

def start : State := ⟨[], [], none⟩

/-- What the pass's next step meets. -/
structure Turn where
  policy : Policy
  planned : Planned
  answers : Answers
  /-- The decisions can be read. -/
  readable : Bool
  /-- The id drawn, of a decision or of a halt. -/
  draw : Str
  /-- A source raises, or a store cannot be written. -/
  fails : Bool

inductive Event where
  /-- A change of the incidents made elsewhere. -/
  | change (act : Act)
  /-- A row written elsewhere. -/
  | writes (row : Row) (other : row.decided? = none)
  /-- A pass takes the heal lock and reads the ready incidents. -/
  | begins (now : Clock)
  | goesOn (turn : Turn)
  /-- The pass's process ends. -/
  | dies

def why : Str := "the decision".ascii

def attempt (state : State) (turn : Turn) (act : Act) : Option (List Incident) :=
  if turn.fails then none else Detect.attempt state.incidents act

def at_ (state : State) (pass : Pass) (stage : Stage) : State :=
  { state with pass := some { pass with stage := stage } }

/-- The next incident is claimed; a claim refused ends the pass. -/
def takeUp (state : State) (pass : Pass) (turn : Turn) : State :=
  match pass.rest with
  | [] => { state with pass := none }
  | inc :: rest =>
    match attempt state turn (.claim inc.id why) with
    | some incidents =>
      match incidents.find? (fun claimed => claimed.id = inc.id) with
      | some claimed =>
        { state with
          incidents := incidents
          pass := some ⟨pass.now, .stopping claimed, rest⟩ }
      | none => { state with pass := none }
    | none => { state with pass := none }

/-- `_act` after its halt. -/
def settles (state : State) (pass : Pass) (decision : Decision) (turn : Turn) : State :=
  if decision.outcome = .heal ∨ decision.outcome = .propose then at_ state pass .between
  else
    let act : Act :=
      match decision.outcome, decision.until_ with
      | .deferred, some until_ | .held, some until_ => .defer decision.incident until_ why
      | _, _ => .close decision.incident why
    match attempt state turn act with
    | some incidents => at_ { state with incidents := incidents } pass .between
    | none => at_ state pass (.failing decision.incident)

def goOn (state : State) (pass : Pass) (turn : Turn) : State :=
  let record := if turn.readable then some state.rows else none
  match pass.stage with
  | .between => takeUp state pass turn
  | .stopping inc =>
    if turn.fails then at_ state pass (.failing inc.id)
    else
      match stops turn.policy (record.map halted) turn.planned pass.now with
      | some hit => at_ state pass (.recording inc (stop (base inc turn.policy.mode) hit))
      | none => at_ state pass (.judging inc turn.policy)
  | .judging inc policy =>
    if turn.fails then at_ state pass (.failing inc.id)
    else
      at_ state pass (.recording inc
        (judge inc policy turn.answers state.incidents record pass.now))
  | .recording inc made =>
    if turn.fails then at_ state pass (.failing inc.id)
    else
      let decision : Decision := ⟨made, turn.draw, pass.now⟩
      at_ { state with rows := state.rows ++ [.decision decision] } pass (.halting decision)
  | .halting decision =>
    match decision.guard with
    | some guard =>
      if decision.outcome = .halted ∧ decision.mode = .auto ∧ guard ∈ [10, 11, 14] then
        if turn.fails then at_ state pass (.failing decision.incident)
        else
          at_ { state with rows := state.rows ++ [.halt ⟨turn.draw, guard, none, pass.now⟩] }
            pass (.settling decision)
      else at_ state pass (.settling decision)
    | none => at_ state pass (.settling decision)
  | .settling decision => settles state pass decision turn
  | .failing incident =>
    match attempt state turn (.defer incident (pass.now + 60) why) with
    | some incidents => at_ { state with incidents := incidents } pass .between
    | none => { state with pass := none }

def step (state : State) : Event → State
  | .change act => { state with incidents := mutate state.incidents act }
  | .writes row _ => { state with rows := state.rows ++ [row] }
  | .begins now =>
    match state.pass with
    | some _ => state
    | none =>
      let ready := state.incidents.filter (fun inc => inc.status = .ready)
      { state with pass := some ⟨now, .between, ready⟩ }
  | .goesOn turn =>
    match state.pass with
    | none => state
    | some pass => goOn state pass turn
  | .dies => { state with pass := none }

end Decide

end Nmas.Heal
