import Nmas.Log.Keyed
import Nmas.Log.ReadThenAppend
import Nmas.Text.Unicode

/-!
Contract: the responses a network has awaiting a person.

Owns: `sdn/loop.py`, the pending log. `awaiting` and `watching` fold the log's
rows; `propose`, `seenAlso`, `mark`, `classified` and `resolve` decide what to
append to it.

Every one of them folds the whole log and appends under a lock that covers the
append alone: `Log.run decides` is the log under any number of writers. A time
is kept as the whole second its text names, zero for none, and a value only
carried through as the JSON text it is written with.
-/

namespace Nmas.Sdn.Pending

open Nmas.Text List
open Nmas.Log (amend put mem_amend mem_put amend_map amend_self put_of_new)

abbrev Stamp := Nat
abbrev Json := Str

/-- `incidents.brief`: a detection as an incident keeps it. -/
structure Sighting where
  key : Str
  at_ : Stamp
  rest : Json
deriving DecidableEq

/-- A detection, and what its incident's `stamp` adds. -/
structure Detection extends Sighting where
  incident : Option Json
deriving DecidableEq

/-- `incidents.record`. -/
structure Incident where
  seenAlso : List Sighting
  /-- `incidents.stamp` of the incident: its key, its ingress and its size. -/
  stamp : Json
  rest : Json
deriving DecidableEq

structure Proposal where
  id : Str
  at_ : Stamp
  action : Str
  risk : Str
  why : Str
  detection : Detection
  classification : Option Json
  params : Json
  classified : Str
  refusedCall : Str
  incident : Option Incident
  autoFailed : Str
deriving DecidableEq

/-- `CLOSED`. -/
inductive Closing where
  | confirmed
  | dismissed
  | cleared
deriving DecidableEq

inductive WatchClosing where
  | joined
  | ended
  | proposedByPerson
deriving DecidableEq

/-- A line of `sdn_responses.jsonl`. -/
inductive Row where
  | proposed (proposal : Proposal)
  | seen (id : Str) (at_ : Stamp) (detections : List Sighting)
  | classified (id : Str) (at_ : Stamp) (actor : Str) (classification : Option Json)
      (action risk : Str) (params : Json)
  | inactive (id : Str) (at_ since : Stamp)
  | active (id : Str) (at_ since : Stamp)
  | began (id : Str) (at_ : Stamp) (watch : Str) (since : Stamp) (words : Str)
  | closed (how : Closing) (id : Str) (at_ : Stamp) (actor why operation : Str)
  | watching (id : Str) (at_ : Stamp) (detection : Detection) (incident : Incident)
  | watchClosed (how : WatchClosing) (id : Str) (at_ : Stamp) (why : Str)
  /-- `mitigated` and `released`, which neither fold reads. -/
  | hold (id : Str) (at_ : Stamp) (rest : Json)
deriving DecidableEq

def Row.id : Row → Str
  | .proposed proposal => proposal.id
  | .seen id .. => id
  | .classified id .. => id
  | .inactive id .. => id
  | .active id .. => id
  | .began id .. => id
  | .closed _ id .. => id
  | .watching id .. => id
  | .watchClosed _ id .. => id
  | .hold id .. => id

/-! ### The folds -/

/-- A response awaiting a person. -/
structure Open where
  proposal : Proposal
  inactiveSince : Stamp
  seenAlso : List Sighting
  /-- Every detection key its incident holds, its own first. -/
  members : List Str
  lastSeen : Stamp
  classifiedAt : Option Stamp
  classifiedBy : Option Str
  beganAs : Option (Str × Stamp × Str)
deriving DecidableEq

def Open.id (row : Open) : Str := row.proposal.id

def Open.key (row : Open) : Str := row.proposal.detection.key

def Open.of (proposal : Proposal) : Open :=
  let also := (proposal.incident.map Incident.seenAlso).getD []
  { proposal := proposal, inactiveSince := 0, seenAlso := also,
    members := proposal.detection.key :: also.map Sighting.key,
    lastSeen := max proposal.detection.at_ proposal.at_,
    classifiedAt := none, classifiedBy := none, beganAs := none }

def newSightings (members : List Str) (detections : List Sighting) : List Sighting :=
  detections.filter (·.key ∉ members)

def latest (stamp at_ : Stamp) (sightings : List Sighting) : Stamp :=
  (sightings.map Sighting.at_).foldl max (max stamp at_)

def Open.seen (at_ : Stamp) (detections : List Sighting) (row : Open) : Open :=
  let new := newSightings row.members detections
  { row with
    seenAlso := row.seenAlso ++ new, members := row.members ++ new.map Sighting.key,
    lastSeen := latest row.lastSeen at_ new }

def Open.classify (at_ : Stamp) (actor : Str) (classification : Option Json) (action risk : Str)
    (params : Json) (row : Open) : Open :=
  { row with
    proposal :=
      { row.proposal with
        classification := classification, action := action, risk := risk, params := params },
    classifiedAt := some at_, classifiedBy := some actor }

def Open.deactivate (at_ since : Stamp) (row : Open) : Open :=
  { row with inactiveSince := if since = 0 then at_ else since }

def Open.reactivate (at_ : Stamp) (row : Open) : Open :=
  { row with inactiveSince := 0, lastSeen := max row.lastSeen at_ }

def Open.began (watch : Str) (since : Stamp) (words : Str) (row : Open) : Open :=
  { row with beganAs := some (watch, since, words) }

def awaitingStep (rows : List Open) : Row → List Open
  | .proposed proposal => put Open.id (.of proposal) rows
  | .seen id at_ detections => amend Open.id id (Open.seen at_ detections) rows
  | .classified id at_ actor classification action risk params =>
    amend Open.id id (Open.classify at_ actor classification action risk params) rows
  | .inactive id at_ since => amend Open.id id (Open.deactivate at_ since) rows
  | .active id at_ _ => amend Open.id id (Open.reactivate at_) rows
  | .began id _ watch since words => amend Open.id id (Open.began watch since words) rows
  | .closed _ id .. => rows.filter (fun row => row.id ≠ id)
  | _ => rows

/-- The responses awaiting a person, oldest first. -/
def awaiting (log : List Row) : List Open := log.foldl awaitingStep []

/-- A high packet rate incident, watched and never answered. -/
structure Watched where
  id : Str
  seenAlso : List Sighting
  members : List Str
  lastSeen : Stamp
deriving DecidableEq

def Watched.of (id : Str) (at_ : Stamp) (detection : Detection) (incident : Incident) : Watched :=
  { id := id, seenAlso := incident.seenAlso,
    members := detection.key :: incident.seenAlso.map Sighting.key,
    lastSeen := max detection.at_ at_ }

def Watched.seen (at_ : Stamp) (detections : List Sighting) (row : Watched) : Watched :=
  let new := newSightings row.members detections
  { row with
    seenAlso := row.seenAlso ++ new, members := row.members ++ new.map Sighting.key,
    lastSeen := latest row.lastSeen at_ new }

def watchingStep (rows : List Watched) : Row → List Watched
  | .watching id at_ detection incident => put Watched.id (.of id at_ detection incident) rows
  | .seen id at_ detections => amend Watched.id id (Watched.seen at_ detections) rows
  | .watchClosed _ id .. => rows.filter (fun row => row.id ≠ id)
  | .closed .dismissed id .. => rows.filter (fun row => row.id ≠ id)
  | _ => rows

/-- The watching rows still open, oldest first. -/
def watching (log : List Row) : List Watched := log.foldl watchingStep []

/-! ### What each call appends -/

/-- `closed_loop.CATALOGUE`: each action with its risk. -/
def catalogue : List (Str × Str) :=
  [("drop_source".ascii, "low".ascii), ("rate_limit_source".ascii, "low".ascii),
    ("remove_flow".ascii, "medium".ascii)]

def noAction : Str := "none".ascii

def propose (log : List Row) (proposal : Proposal) : Option Row :=
  if (awaiting log).any (fun row => proposal.detection.key ∈ row.members) then none
  else
    let detection :=
      match proposal.incident with
      | some incident => { proposal.detection with incident := some incident.stamp }
      | none => proposal.detection
    some (.proposed { proposal with detection := detection })

def seenAlso (id : Str) (detections : List Sighting) (now : Stamp) : Row := .seen id now detections

inductive Mark where
  | inactive
  | active
deriving DecidableEq

def mark (id : Str) (how : Mark) (since now : Stamp) : Row :=
  match how with
  | .inactive => .inactive id now (if since = 0 then now else since)
  | .active => .active id now (if since = 0 then now else since)

def classified (log : List Row) (id : Str) (classification : Option Json) (action : Str)
    (params : Json) (actor : Str) (now : Stamp) : Option Row :=
  match (awaiting log).find? (fun row => row.id = id) with
  | none => none
  | some row =>
    match if action = noAction then none else catalogue.lookup action with
    | none =>
      some (.classified id now actor classification row.proposal.action row.proposal.risk
        row.proposal.params)
    | some risk => some (.classified id now actor classification action risk params)

/-- How a person closes a response. -/
inductive Act where
  | confirmed
  | dismissed
deriving DecidableEq

def Act.closing : Act → Closing
  | .confirmed => .confirmed
  | .dismissed => .dismissed

def resolve (log : List Row) (id : Str) (how : Act) (actor why operation : Str) (now : Stamp) :
    Option Row :=
  let watchedRow := how = .dismissed ∧ (watching log).any (fun row => row.id = id)
  if how = .dismissed ∧ why.all isSpace then none
  else if ¬ watchedRow ∧ ¬ (awaiting log).any (fun row => row.id = id) then none
  else some (.closed how.closing id now actor why operation)

inductive Op where
  | propose (proposal : Proposal)
  | seenAlso (id : Str) (detections : List Sighting) (now : Stamp)
  | mark (id : Str) (how : Mark) (since now : Stamp)
  | classified (id : Str) (classification : Option Json) (action : Str) (params : Json)
      (actor : Str) (now : Stamp)
  | resolve (id : Str) (how : Act) (actor why operation : Str) (now : Stamp)

/-- The row a call appends, decided on the log it reads. -/
def decides : Op → List Row → Option Row
  | .propose proposal, log => propose log proposal
  | .seenAlso id detections now, _ => some (seenAlso id detections now)
  | .mark id how since now, _ => some (mark id how since now)
  | .classified id classification action params actor now, log =>
    classified log id classification action params actor now
  | .resolve id how actor why operation now, log => resolve log id how actor why operation now

/-! ### What one row changes -/

structure KeepsIdentity (change : Open → Open) : Prop where
  id : ∀ row, (change row).id = row.id
  key : ∀ row, (change row).key = row.key
  members : ∀ row, row.members ⊆ (change row).members

def isProposed : Row → Bool
  | .proposed _ => true
  | _ => false

def closes (id : Str) : Row → Bool
  | .closed _ closedId .. => closedId = id
  | _ => false

theorem awaiting_append (log : List Row) (row : Row) :
    awaiting (log ++ [row]) = awaitingStep (awaiting log) row := by
  simp [awaiting]

theorem watching_append (log : List Row) (row : Row) :
    watching (log ++ [row]) = watchingStep (watching log) row := by
  simp [watching]

theorem countP_closes_append (log : List Row) (row : Row) (id : Str) :
    (log ++ [row]).countP (closes id) = log.countP (closes id) + if closes id row then 1 else 0 := by
  simp [countP_append, countP_cons]

theorem awaitingStep_amends (rows : List Open) {row : Row} (notProposed : isProposed row = false)
    (notClosing : ∀ id, closes id row = false) :
    ∃ id change, KeepsIdentity change ∧ awaitingStep rows row = amend Open.id id change rows := by
  have same : ∃ id change, KeepsIdentity change ∧ rows = amend Open.id id change rows :=
    ⟨[], fun row => row, ⟨fun _ => rfl, fun _ => rfl, fun _ => .refl _⟩, (amend_self _ _ _).symm⟩
  cases row with
  | proposed proposal => cases notProposed
  | closed how id => simpa [closes] using notClosing id
  | seen id at_ detections =>
    exact ⟨id, Open.seen at_ detections,
      ⟨fun _ => rfl, fun _ => rfl, fun _ => subset_append_left _ _⟩, rfl⟩
  | classified id at_ actor classification action risk params =>
    exact ⟨id, Open.classify at_ actor classification action risk params,
      ⟨fun _ => rfl, fun _ => rfl, fun _ => .refl _⟩, rfl⟩
  | inactive id at_ since =>
    exact ⟨id, Open.deactivate at_ since, ⟨fun _ => rfl, fun _ => rfl, fun _ => .refl _⟩, rfl⟩
  | active id at_ since =>
    exact ⟨id, Open.reactivate at_, ⟨fun _ => rfl, fun _ => rfl, fun _ => .refl _⟩, rfl⟩
  | began id at_ watch since words =>
    exact ⟨id, Open.began watch since words, ⟨fun _ => rfl, fun _ => rfl, fun _ => .refl _⟩, rfl⟩
  | watching | watchClosed | hold => exact same

theorem mem_log_of_awaiting {log : List Row} {row : Open} (member : row ∈ awaiting log) :
    ∃ entry ∈ log, entry.id = row.id := by
  induction log using List.reverseRecOn generalizing row with
  | nil => cases member
  | append_singleton log last ih =>
    have earlier : ∀ old ∈ awaiting log, old.id = row.id → ∃ entry ∈ log ++ [last],
        entry.id = row.id := by
      intro old oldMember sameId
      obtain ⟨entry, inLog, isId⟩ := ih oldMember
      exact ⟨entry, mem_append_left _ inLog, isId.trans sameId⟩
    rw [awaiting_append] at member
    cases isProposal : isProposed last with
    | true =>
      cases last with
      | proposed proposal =>
        rcases mem_put member with old | new
        · exact earlier row old rfl
        · rw [new]
          exact ⟨.proposed proposal, by simp, rfl⟩
      | _ => cases isProposal
    | false =>
      by_cases closing : ∀ id, closes id last = false
      · obtain ⟨id, change, keeps, isStep⟩ := awaitingStep_amends (awaiting log) isProposal closing
        rw [isStep] at member
        obtain ⟨old, oldMember, isRow | isRow⟩ := mem_amend member
        · exact earlier old oldMember (by rw [isRow])
        · exact earlier old oldMember (by rw [isRow, keeps.id])
      · cases last with
        | closed how id =>
          exact earlier row (mem_of_mem_filter member) rfl
        | _ => exact absurd (fun _ => rfl) closing

/-! ### Each response is closed by one act -/

/-- Every id is closed at most once, and no two open responses are proposed for
one detection key. -/
structure ClosedByOneAct (log : List Row) : Prop where
  once : ∀ id, log.countP (closes id) ≤ 1
  distinct : ((awaiting log).map Open.key).Nodup

/-- What keeps a log so: an open row is not closed, a watching row is not a
response, and a response holds its own key. -/
structure Sound (log : List Row) : Prop extends ClosedByOneAct log where
  unclosed : ∀ row ∈ awaiting log, log.countP (closes row.id) = 0
  watchedUnclosed : ∀ row ∈ watching log, log.countP (closes row.id) = 0
  apart : ∀ row ∈ awaiting log, ∀ watched ∈ watching log, row.id ≠ watched.id
  ownKey : ∀ row ∈ awaiting log, row.key ∈ row.members

theorem sound_nil : Sound [] where
  once := by simp
  distinct := by simp [awaiting]
  unclosed := by simp [awaiting]
  watchedUnclosed := by simp [watching]
  apart := by simp [awaiting]
  ownKey := by simp [awaiting]

/-- A proposal lands under an id of its own while no open response holds its
key, and a closing on a log whose row is still open. -/
def StillDue (pending : Log.InFlight Op Row) (log : List Row) : Prop :=
  match pending.op with
  | .propose proposal =>
    Log.Rechecked decides pending log ∧ ∀ row ∈ log, row.id ≠ proposal.id
  | .resolve .. => Log.Rechecked decides pending log
  | _ => True

instance (pending : Log.InFlight Op Row) (log : List Row) : Decidable (StillDue pending log) := by
  unfold StillDue
  split <;> infer_instance

theorem watched_of_amendment {log : List Row} {row : Row} (notWatching : ∀ id at_ detection incident,
    row ≠ .watching id at_ detection incident) {watched : Watched}
    (member : watched ∈ watchingStep (watching log) row) :
    ∃ old ∈ watching log, old.id = watched.id := by
  cases row with
  | watching id at_ detection incident => exact absurd rfl (notWatching id at_ detection incident)
  | seen id at_ detections =>
    obtain ⟨old, oldMember, isRow | isRow⟩ := mem_amend member
    · exact ⟨old, oldMember, by rw [isRow]⟩
    · exact ⟨old, oldMember, by rw [isRow]; rfl⟩
  | watchClosed how id => exact ⟨watched, mem_of_mem_filter member, rfl⟩
  | closed how id =>
    cases how with
    | dismissed => exact ⟨watched, mem_of_mem_filter member, rfl⟩
    | confirmed | cleared => exact ⟨watched, member, rfl⟩
  | proposed | classified | inactive | active | began | hold => exact ⟨watched, member, rfl⟩

theorem Sound.amend {log : List Row} {row : Row} (sound : Sound log)
    (notProposed : isProposed row = false) (notClosing : ∀ id, closes id row = false)
    (notWatching : ∀ id at_ detection incident, row ≠ .watching id at_ detection incident) :
    Sound (log ++ [row]) := by
  obtain ⟨id, change, keeps, isStep⟩ := awaitingStep_amends (awaiting log) notProposed notClosing
  have sameCount : ∀ id, (log ++ [row]).countP (closes id) = log.countP (closes id) := by
    intro id
    rw [countP_closes_append, notClosing]
    rfl
  have old : ∀ new ∈ awaiting (log ++ [row]), ∃ before ∈ awaiting log,
      before.id = new.id ∧ before.key = new.key ∧ before.members ⊆ new.members := by
    intro new member
    rw [awaiting_append, isStep] at member
    obtain ⟨before, beforeMember, isRow | isRow⟩ := mem_amend member
    · rw [isRow]
      exact ⟨before, beforeMember, rfl, rfl, .refl _⟩
    · rw [isRow]
      exact ⟨before, beforeMember, (keeps.id before).symm, (keeps.key before).symm,
        keeps.members before⟩
  have oldWatched : ∀ new ∈ watching (log ++ [row]), ∃ before ∈ watching log,
      before.id = new.id := by
    intro new member
    rw [watching_append] at member
    exact watched_of_amendment notWatching member
  constructor
  · constructor
    · intro id
      rw [sameCount]
      exact sound.once id
    · rw [awaiting_append, isStep, amend_map keeps.key]
      exact sound.distinct
  · intro new member
    obtain ⟨before, beforeMember, sameId, _⟩ := old new member
    rw [sameCount, ← sameId]
    exact sound.unclosed before beforeMember
  · intro new member
    obtain ⟨before, beforeMember, sameId⟩ := oldWatched new member
    rw [sameCount, ← sameId]
    exact sound.watchedUnclosed before beforeMember
  · intro new member watched watchedMember
    obtain ⟨before, beforeMember, sameId, _⟩ := old new member
    obtain ⟨beforeWatched, beforeWatchedMember, sameWatchedId⟩ := oldWatched watched watchedMember
    rw [← sameId, ← sameWatchedId]
    exact sound.apart before beforeMember beforeWatched beforeWatchedMember
  · intro new member
    obtain ⟨before, beforeMember, _, sameKey, grown⟩ := old new member
    rw [← sameKey]
    exact grown (sound.ownKey before beforeMember)

theorem id_of_closes {id : Str} {row : Row} (closing : closes id row) : row.id = id := by
  cases row with
  | closed how closedId => exact of_decide_eq_true closing
  | _ => cases closing

theorem mem_log_of_watching {log : List Row} {watched : Watched} (member : watched ∈ watching log) :
    ∃ entry ∈ log, entry.id = watched.id := by
  induction log using List.reverseRecOn generalizing watched with
  | nil => cases member
  | append_singleton log last ih =>
    have earlier : ∀ old ∈ watching log, old.id = watched.id → ∃ entry ∈ log ++ [last],
        entry.id = watched.id := by
      intro old oldMember sameId
      obtain ⟨entry, inLog, isId⟩ := ih oldMember
      exact ⟨entry, mem_append_left _ inLog, isId.trans sameId⟩
    rw [watching_append] at member
    by_cases opening : ∀ id at_ detection incident, last ≠ .watching id at_ detection incident
    · obtain ⟨old, oldMember, sameId⟩ := watched_of_amendment opening member
      exact earlier old oldMember sameId
    · cases last with
      | watching id at_ detection incident =>
        rcases mem_put member with old | new
        · exact earlier watched old rfl
        · rw [new]
          exact ⟨.watching id at_ detection incident, by simp, rfl⟩
      | _ => exact absurd (fun _ _ _ _ => Row.noConfusion) opening

theorem Sound.propose {log : List Row} {proposal : Proposal} (sound : Sound log)
    (new : ∀ row ∈ log, row.id ≠ proposal.id)
    (unheld : ∀ row ∈ awaiting log, proposal.detection.key ∉ row.members) :
    Sound (log ++ [Row.proposed proposal]) := by
  have appended : awaiting (log ++ [Row.proposed proposal]) = awaiting log ++ [.of proposal] := by
    rw [awaiting_append]
    apply put_of_new
    intro row member isId
    obtain ⟨entry, inLog, sameId⟩ := mem_log_of_awaiting member
    exact new entry inLog (sameId.trans isId)
  have sameCount : ∀ id, (log ++ [Row.proposed proposal]).countP (closes id) =
      log.countP (closes id) := by
    intro id
    rw [countP_closes_append]
    rfl
  have sameWatching : watching (log ++ [Row.proposed proposal]) = watching log := by
    rw [watching_append]
    rfl
  constructor
  · constructor
    · intro id
      rw [sameCount]
      exact sound.once id
    · rw [appended, map_append, nodup_append]
      refine ⟨sound.distinct, by simp, ?_⟩
      intro key inOld newKey inNew same
      obtain ⟨row, member, isKey⟩ := mem_map.mp inOld
      rw [map_singleton, mem_singleton] at inNew
      apply unheld row member
      have held := sound.ownKey row member
      rw [isKey, same, inNew] at held
      exact held
  · intro row member
    rw [appended] at member
    rw [sameCount]
    rcases mem_append.mp member with old | isNew
    · exact sound.unclosed row old
    · rw [mem_singleton.mp isNew, countP_eq_zero]
      intro entry inLog closing
      exact new entry inLog (id_of_closes closing)
  · intro watched member
    rw [sameWatching] at member
    rw [sameCount]
    exact sound.watchedUnclosed watched member
  · intro row member watched watchedMember
    rw [appended] at member
    rw [sameWatching] at watchedMember
    rcases mem_append.mp member with old | isNew
    · exact sound.apart row old watched watchedMember
    · obtain ⟨entry, inLog, sameId⟩ := mem_log_of_watching watchedMember
      rw [mem_singleton.mp isNew]
      intro isId
      exact new entry inLog (sameId.trans isId.symm)
  · intro row member
    rw [appended] at member
    rcases mem_append.mp member with old | isNew
    · exact sound.ownKey row old
    · rw [mem_singleton.mp isNew]
      exact .head _

theorem Sound.resolve {log : List Row} {id actor why operation : Str} {how : Act} {now : Stamp}
    (sound : Sound log)
    (isOpen : (∃ row ∈ awaiting log, row.id = id) ∨
      (how = .dismissed ∧ ∃ watched ∈ watching log, watched.id = id)) :
    Sound (log ++ [Row.closed how.closing id now actor why operation]) := by
  have unclosed : log.countP (closes id) = 0 := by
    rcases isOpen with ⟨row, member, isId⟩ | ⟨_, watched, member, isId⟩
    · rw [← isId]
      exact sound.unclosed row member
    · rw [← isId]
      exact sound.watchedUnclosed watched member
  have count : ∀ other, (log ++ [Row.closed how.closing id now actor why operation]).countP
      (closes other) = log.countP (closes other) + if id = other then 1 else 0 := by
    intro other
    rw [countP_closes_append]
    simp [closes]
  have stillOpen : awaiting (log ++ [Row.closed how.closing id now actor why operation]) =
      (awaiting log).filter (fun row => row.id ≠ id) := by
    rw [awaiting_append]
    rfl
  have mem_open : ∀ row ∈ awaiting (log ++ [Row.closed how.closing id now actor why operation]),
      row ∈ awaiting log ∧ row.id ≠ id := by
    intro row member
    rw [stillOpen] at member
    exact ⟨mem_of_mem_filter member, by simpa using (mem_filter.mp member).2⟩
  have mem_watching : ∀ watched ∈ watching
      (log ++ [Row.closed how.closing id now actor why operation]),
      watched ∈ watching log ∧ watched.id ≠ id := by
    intro watched member
    rw [watching_append] at member
    cases how with
    | dismissed =>
      exact ⟨mem_of_mem_filter member, by simpa using (mem_filter.mp member).2⟩
    | confirmed =>
      refine ⟨member, ?_⟩
      rcases isOpen with ⟨row, rowMember, isId⟩ | ⟨isDismissed, _⟩
      · intro sameId
        exact sound.apart row rowMember watched member (isId.trans sameId.symm)
      · cases isDismissed
  constructor
  · constructor
    · intro other
      rw [count]
      by_cases same : id = other
      · rw [← same, unclosed, if_pos rfl]
      · rw [if_neg same]
        exact sound.once other
    · rw [stillOpen]
      exact (sound.distinct.sublist (filter_sublist.map Open.key))
  · intro row member
    obtain ⟨old, notId⟩ := mem_open row member
    rw [count, if_neg (Ne.symm notId)]
    exact sound.unclosed row old
  · intro watched member
    obtain ⟨old, notId⟩ := mem_watching watched member
    rw [count, if_neg (Ne.symm notId)]
    exact sound.watchedUnclosed watched old
  · intro row member watched watchedMember
    exact sound.apart row (mem_open row member).1 watched (mem_watching watched watchedMember).1
  · intro row member
    exact sound.ownKey row (mem_open row member).1

/-! ### Runs -/

theorem propose_eq_some {log : List Row} {proposal : Proposal} {row : Row}
    (decided : propose log proposal = some row) :
    (∀ held ∈ awaiting log, proposal.detection.key ∉ held.members) ∧
      ∃ stamped : Proposal, row = .proposed stamped ∧ stamped.id = proposal.id ∧
        stamped.detection.key = proposal.detection.key := by
  unfold propose at decided
  split at decided
  · cases decided
  · rename_i unheld
    refine ⟨?_, _, (Option.some.inj decided).symm, rfl, ?_⟩
    · intro held member inside
      exact unheld (any_eq_true.mpr ⟨held, member, decide_eq_true inside⟩)
    · dsimp only
      split <;> rfl

theorem resolve_eq_some {log : List Row} {id actor why operation : Str} {how : Act} {now : Stamp}
    {row : Row} (decided : resolve log id how actor why operation now = some row) :
    ((∃ row ∈ awaiting log, row.id = id) ∨
      (how = .dismissed ∧ ∃ watched ∈ watching log, watched.id = id)) ∧
      row = .closed how.closing id now actor why operation := by
  simp only [resolve] at decided
  split_ifs at decided with _ isOpen
  refine ⟨?_, (Option.some.inj decided).symm⟩
  by_cases isAwaiting : (awaiting log).any (fun row => row.id = id)
  · left
    simpa using isAwaiting
  · right
    have watched := not_not.mp (fun unwatched => isOpen ⟨unwatched, isAwaiting⟩)
    exact ⟨watched.1, by simpa using watched.2⟩

/-- **The pending log.** While every proposal and every closing is still due
when it lands, each id is closed by one act and a detection awaits once. -/
theorem responses_closed_once {log : List Row} (sound : Sound log) (acts : List (Log.Act Op))
    (stillDue : Log.Lands decides StillDue (Log.idle log) acts) :
    ClosedByOneAct (Log.run decides (Log.idle log) acts).log := by
  have kept : Sound (Log.run decides (Log.idle log) acts).log := by
    apply Log.run_keeps ?_ acts (Log.decided_idle decides log) sound stillDue
    intro log pending sound decided _ stillDue
    obtain ⟨op, read, row⟩ := pending
    cases op with
    | propose proposal =>
      obtain ⟨rechecked, new⟩ := stillDue
      obtain ⟨again, isAgain⟩ := Option.isSome_iff_exists.mp rechecked
      obtain ⟨_, stamped, isRow, sameId, sameKey⟩ := propose_eq_some decided
      simp only at isRow
      rw [isRow]
      apply sound.propose
      · rw [sameId]
        exact new
      · rw [sameKey]
        exact (propose_eq_some isAgain).1
    | resolve id how actor why operation now =>
      obtain ⟨again, isAgain⟩ := Option.isSome_iff_exists.mp stillDue
      have isRow := (resolve_eq_some decided).2
      simp only at isRow
      rw [isRow]
      exact sound.resolve (resolve_eq_some isAgain).1
    | seenAlso id detections now =>
      cases decided
      exact sound.amend rfl (fun _ => rfl) (fun _ _ _ _ => Row.noConfusion)
    | mark id how since now =>
      cases decided
      cases how with
      | inactive | active => exact sound.amend rfl (fun _ => rfl) (fun _ _ _ _ => Row.noConfusion)
    | classified id classification action params actor now =>
      simp only [decides, Pending.classified] at decided
      split at decided
      · cases decided
      · split at decided
        · cases decided
          exact sound.amend rfl (fun _ => rfl) (fun _ _ _ _ => Row.noConfusion)
        · cases decided
          exact sound.amend rfl (fun _ => rfl) (fun _ _ _ _ => Row.noConfusion)
  exact kept.toClosedByOneAct

/-- A response to one scan of one source, as the loop proposes it. -/
def scanResponse (id key : Str) (now : Stamp) : Proposal where
  id := id
  at_ := now
  action := "drop_source".ascii
  risk := "low".ascii
  why := "scan".ascii
  detection := { key := key, at_ := now, rest := [], incident := none }
  classification := none
  params := []
  classified := []
  refusedCall := []
  incident := none
  autoFailed := []

/-- A second proposal for a key is not added, and a response dismissed is closed
once, whoever asks again. -/
theorem dismissed_once :
    ClosedByOneAct (Log.run decides (Log.idle [])
      [.reads (.propose (scanResponse "resp-1".ascii "k".ascii 10)), .appends 0,
        .reads (.propose (scanResponse "resp-2".ascii "k".ascii 20)),
        .reads (.resolve "resp-1".ascii .dismissed "ann".ascii "noise".ascii [] 30), .appends 0,
        .reads (.resolve "resp-1".ascii .dismissed "bob".ascii "noise".ascii [] 40)]).log :=
  responses_closed_once sound_nil _ (by decide)

/-- Two people who read the same open response both close it. -/
theorem both_readers_close :
    ¬ ∀ acts, ClosedByOneAct (Log.run decides (Log.idle []) acts).log := by
  intro always
  have once := (always
    [.reads (.propose (scanResponse "resp-1".ascii "k".ascii 10)), .appends 0,
      .reads (.resolve "resp-1".ascii .confirmed "ann".ascii [] "op-1".ascii 30),
      .reads (.resolve "resp-1".ascii .dismissed "bob".ascii "noise".ascii [] 31),
      .appends 0, .appends 0]).once "resp-1".ascii
  revert once
  decide

end Nmas.Sdn.Pending
