import Nmas.Nsot.BulkIntent.Documents

/-!
Owns: a bulk change of intent as `bulk_intent.plan` takes it: its steps checked against the
committed document, then written one after another.

Contract: an accepted change leaves exactly what its steps say where the steps agree with one
another, where what a deletion reaches is held, and where nothing a list item is found by is
written (`plan_exact`). The check reads the committed document alone, so a second step on one
path is accepted and replaces the first (`second_step_replaces`).
-/

namespace Nmas.Nsot.BulkIntent

open Nmas.Text List

/-- A step of the change. Each `after` is the step's own value: two steps share no object. -/
structure Step where
  path : List Str
  before : Doc
  after : Doc

/-- What a step says its path holds. -/
def Step.wanted (step : Step) : Option Doc := written step.after

def knownChildren (key : Str) : Option (List Str) :=
  if key = "logging".ascii then
    some ["console".ascii, "settings".ascii, "hosts".ascii, "syslog".ascii]
  else if key = "snmp".ascii then some ["communities".ascii, "settings".ascii, "hosts".ascii]
  else if key = "routing".ascii then
    some ["ospf".ascii, "ospfv3".ascii, "ripng".ascii, "rip".ascii, "bgp".ascii]
  else if key = "dhcp_server".ascii then some ["excluded".ascii, "pools".ascii]
  else none

/-- The keys of `BaseParser.SCHEMA_DEFAULTS`. -/
def schemaDefaults : List Str :=
  ["domain_name", "vtp_mode", "fhrp_version_vrrp", "enable_secret_ref", "enable_secret_keyword",
    "vtp", "platform_settings", "license_settings", "vrfs", "pki_trustpoints", "ip_sla",
    "ip_sla_schedules", "netconf_settings", "telemetry", "ssh", "http", "source_interfaces",
    "forward_protocol", "mgcp", "control_plane", "ip_nat", "prefix_lists", "login", "subscriber",
    "multilink", "diagnostic", "memory", "redundancy", "call_home"].map String.ascii

/-- The keys of `BaseParser.INTERFACE_DEFAULTS`. -/
def interfaceDefaults : List Str :=
  ["description", "ipv4", "vrf", "mtu", "negotiation", "encapsulation", "channel_group",
    "switchport_mode", "switchport_access_vlan", "switchport_trunk_encapsulation",
    "no_switchport", "shutdown", "no_shutdown", "ipv6_enable", "no_ip_address", "vrrp_groups",
    "ip_nat", "ipv6", "switchport", "switchport_trunk_vlans", "helper_addresses", "dhcpv6_relay",
    "ipv6_nd", "ospf", "ospfv3", "ripng", "vrrp", "mop", "hold_queue", "ospf_interface",
    "ospfv3_interface", "ripng_interface"].map String.ascii

def knownTopLevel : List Str :=
  ["hostname", "platform", "interfaces", "vlans", "users", "routing", "static_routes", "acls",
    "snmp", "logging", "ntp_servers", "lines", "tracks", "services", "flags", "spanning_tree",
    "unmodeled", "secret_refs", "unmodeled_ack", "bootstrap", "dhcp_server"].map String.ascii ++
    schemaDefaults

def isKnown (path : List Str) : Bool :=
  match path with
  | [] => false
  | top :: below =>
    if top ∉ knownTopLevel then false
    else
      match knownChildren top, below with
      | some children, second :: _ => decide (second ∈ children)
      | _, _ =>
        match below with
        | _ :: third :: _ =>
          decide (top ≠ "interfaces".ascii ∨ third ∈ interfaceDefaults ∨ third = nameKey)
        | _ => true

def unknownPaths (steps : List Step) : List (List Str) :=
  (steps.map Step.path).filter (fun path => !isKnown path)

/-- The steps written one after another; `none` where one cannot be. -/
def setPaths : Doc → List Step → Option Doc
  | doc, [] => some doc
  | doc, step :: steps => (setPath doc step.path step.after).bind (setPaths · steps)

/-- `plan` accepts a device: `doc` is its committed document and `after` what is to be
written. The other checks on the two (the file's formatting, the gates on the result, the
render) only refuse. -/
structure Accepted (refuses : Doc → Doc → Bool) (doc : Doc) (steps : List Step) (after : Doc) :
    Prop where
  known : unknownPaths steps = []
  notEmpty : steps ≠ []
  mapping : ∃ entry, doc = .dict entry
  expected : ∀ step ∈ steps, getPath doc step.path = step.before
  isSet : setPaths doc steps = some after
  passes : refuses doc after = false

/-- An accepted change is exactly its steps. -/
structure Exactly (doc : Doc) (steps : List Step) (after : Doc) : Prop where
  /-- Each step's path holds what the step says, and nothing where it deletes. -/
  holds : ∀ step ∈ steps, held after step.path = step.wanted
  /-- A path neither at, above nor below a step's holds what it held. -/
  keeps : ∀ path, (∀ step ∈ steps, Apart path step.path) → held after path = held doc path
  /-- Nothing is made on the way to a deletion. -/
  makes : ∀ path, (∀ step ∈ steps, step.wanted.isSome → Apart path step.path) →
    held doc path = none → held after path = none

/-! ### When a change is its steps -/

/-- Where one step's path is at or above another's, it leaves there what the other says. -/
def Agrees (steps : List Step) : Prop :=
  ∀ step ∈ steps, ∀ other ∈ steps, ∀ further, other.path = step.path ++ further →
    other.wanted = step.wanted.bind (held · further)

def Step.Leaves (step : Step) (path : List Str) : Prop :=
  (∃ further, path = step.path ++ further ∧ (step.wanted.bind (held · further)).isSome = true) ∨
    (path <+: step.path ∧ step.wanted.isSome = true)

/-- Every level above a deletion is one that a step leaves, or that the document holds when
the deletion is reached, or that a later step takes away again. -/
def Built (doc : Doc) (steps : List Step) : Prop :=
  ∀ earlier step later, steps = earlier ++ step :: later → step.wanted = none →
    ∀ path, path <+: step.path → path ≠ step.path →
      (∃ other ∈ steps, other.Leaves path) ∨
      ((held doc path).isSome = true ∧ ∀ other ∈ earlier, ¬ other.path <+: path) ∨
      ∃ other ∈ later, other.path <+: path

/-- No deletion is below what an earlier step takes away and a later one takes away again. -/
def Settled (steps : List Step) : Prop :=
  ∀ earlier step later, steps = earlier ++ step :: later → step.wanted = none →
    ∀ path, path <+: step.path → path ≠ step.path → ∀ first ∈ earlier, first.path <+: path →
      ∀ again ∈ later, again.path <+: path → ∃ other ∈ steps, other.Leaves path

/-- No step's path goes astray in the document or in what a step writes above it. -/
def Findable (doc : Doc) (steps : List Step) : Prop :=
  ∀ step ∈ steps, strays doc step.path = false ∧
    ∀ other ∈ steps, ∀ further, step.path = other.path ++ further →
      ∀ node, other.wanted = some node → strays node further = false

variable {doc now after : Doc} {steps done rest run : List Step} {step other : Step}
  {path : List Str} {refuses : Doc → Doc → Bool}

theorem held_of_leaves (agrees : Agrees steps) (isStep : step ∈ steps) (isOther : other ∈ steps)
    {further : List Str} (leaves : other.Leaves (step.path ++ further)) :
    (step.wanted.bind (held · further)).isSome := by
  have through {first second : List Str} (value : Option Doc) :
      value.bind (held · (first ++ second)) = (value.bind (held · first)).bind (held · second) := by
    rw [Option.bind_assoc]
    congr 1
    funext node
    exact held_append
  rcases leaves with ⟨beyond, isPath, isLeft⟩ | ⟨⟨beyond, isPath⟩, isSome⟩
  · rcases append_eq_append_iff.mp isPath with ⟨between, isOtherPath, isFurther⟩ |
      ⟨between, isStepPath, isBeyond⟩
    · rw [isFurther, through, ← agrees step isStep other isOther between isOtherPath]
      exact isLeft
    · rw [isBeyond, through, ← agrees other isOther step isStep between isStepPath] at isLeft
      exact isLeft
  · rw [append_assoc] at isPath
    have said := agrees step isStep other isOther (further ++ beyond) isPath.symm
    rw [said, through] at isSome
    cases isHeld : step.wanted.bind (held · further) with
    | some node => rfl
    | none => simp [isHeld] at isSome

def Clear (steps : List Step) (now : Doc) : Prop := ∀ step ∈ steps, strays now step.path = false

theorem clear_step (findable : Findable doc steps) (clear : Clear steps now) (isStep : step ∈ steps)
    (isSet : setPath now step.path step.after = some after) : Clear steps after := by
  intro other isOther
  by_contra astray
  rcases strays_setPath isSet (clear step isStep) (by simpa using astray) with
    before | ⟨further, node, isPath, isWritten, astray⟩
  · rw [clear other isOther] at before
    cases before
  · rw [(findable other isOther).2 step isStep further isPath node isWritten] at astray
    cases astray

theorem held_wanted (clear : strays now step.path = false)
    (isSet : setPath now step.path step.after = some after) (further : List Str) :
    held after (step.path ++ further) = step.wanted.bind (held · further) :=
  held_setPath isSet clear further

theorem held_wanted_self (clear : strays now step.path = false)
    (isSet : setPath now step.path step.after = some after) :
    held after step.path = step.wanted := by
  have here := held_wanted clear isSet []
  rw [append_nil] at here
  rw [here]
  cases step.wanted <;> rfl

/-- What stands with the steps of `done` written and those of `rest` still to be. -/
structure Upto (doc : Doc) (steps done rest : List Step) (now : Doc) : Prop where
  clear : Clear steps now
  holds : ∀ step ∈ done, held now step.path = step.wanted
  keeps : ∀ path, (∀ step ∈ done, Apart path step.path) → held now path = held doc path
  makes : ∀ path, (∀ step ∈ steps, step.wanted.isSome → Apart path step.path) →
    held doc path = none → held now path = none ∨
      ((∀ step ∈ done, ¬ step.path <+: path) ∧ ∃ step ∈ rest, step.path <+: path)

theorem Upto.below (upto : Upto doc steps done (step :: rest) now)
    (isSplit : steps = done ++ step :: rest) (agrees : Agrees steps) (built : Built doc steps)
    (settled : Settled steps) (isDone : other ∈ done) (below : other.path <+: step.path)
    (isBelow : other.path ≠ step.path)
    (isSet : setPath now step.path step.after = some after) : after = now := by
  have isStep : step ∈ steps := by simp [isSplit]
  have isOther : other ∈ steps := by simp [isSplit, isDone]
  obtain ⟨further, isPath⟩ := below
  have isHeld : held now step.path = step.wanted := by
    rw [← isPath, held_append, upto.holds other isDone]
    exact (agrees other isOther step isStep further isPath.symm).symm
  refine setPath_same isSet (upto.clear step isStep) isHeld ?_
  intro above isPrefix isAbove
  cases isWanted : step.wanted with
  | some node =>
    obtain ⟨beyond, isStepPath⟩ := isPrefix
    rw [← isStepPath, held_append, isWanted] at isHeld
    cases isThere : held now above with
    | some inner => rfl
    | none => simp [isThere] at isHeld
  | none =>
    -- a level at or below the other step's path is in what the other step left
    have inside : ∀ between, other.path ++ between <+: step.path →
        other.path ++ between ≠ step.path → (held now (other.path ++ between)).isSome = true := by
      intro between isPrefix isAbove
      have left : ∃ leaving ∈ steps, leaving.Leaves (other.path ++ between) := by
        rcases built done step rest isSplit isWanted _ isPrefix isAbove with
          left | ⟨-, none⟩ | ⟨again, isRest, again'⟩
        · exact left
        · exact absurd (prefix_append _ _) (none other isDone)
        · exact settled done step rest isSplit isWanted _ isPrefix isAbove other isDone
            (prefix_append _ _) again isRest again'
      obtain ⟨leaving, isLeaving, leaves⟩ := left
      rw [held_append, upto.holds other isDone]
      exact held_of_leaves agrees isOther isLeaving leaves
    rcases prefix_or_prefix_of_prefix isPrefix ⟨further, isPath⟩ with higher | lower
    · obtain ⟨between, isOtherPath⟩ := higher
      have there := inside [] (by rw [append_nil]; exact ⟨further, isPath⟩)
        (by rw [append_nil]; exact isBelow)
      rw [append_nil, ← isOtherPath, held_append] at there
      cases isThere : held now above with
      | some inner => rfl
      | none => simp [isThere] at there
    · obtain ⟨between, isAbovePath⟩ := lower
      rw [← isAbovePath] at isPrefix isAbove ⊢
      exact inside between isPrefix isAbove

theorem Upto.next (upto : Upto doc steps done (step :: rest) now)
    (isSplit : steps = done ++ step :: rest) (agrees : Agrees steps) (built : Built doc steps)
    (settled : Settled steps) (findable : Findable doc steps)
    (isSet : setPath now step.path step.after = some after) :
    Upto doc steps (done ++ [step]) rest after := by
  have isStep : step ∈ steps := by simp [isSplit]
  have stays := upto.clear step isStep
  refine ⟨clear_step findable upto.clear isStep isSet, ?_, ?_, ?_⟩
  · intro other member
    rcases mem_append.mp member with isDone | isLast
    · have isOther : other ∈ steps := by simp [isSplit, isDone]
      by_cases above : step.path <+: other.path
      · obtain ⟨further, isPath⟩ := above
        rw [← isPath, held_wanted stays isSet,
          ← agrees step isStep other isOther further isPath.symm]
      · by_cases below : other.path <+: step.path
        · have isBelow : other.path ≠ step.path := fun same => above (same ▸ prefix_refl _)
          rw [upto.below isSplit agrees built settled isDone below isBelow isSet]
          exact upto.holds other isDone
        · rw [held_setPath_apart isSet stays ⟨below, above⟩]
          exact upto.holds other isDone
    · rw [mem_singleton.mp isLast]
      exact held_wanted_self stays isSet
  · intro path apart
    rw [held_setPath_apart isSet stays (apart step (by simp))]
    exact upto.keeps path (fun other member => apart other (mem_append_left _ member))
  · intro path apart isNone
    have notLeft : ¬ ∃ other ∈ steps, other.Leaves path := by
      rintro ⟨other, isOther, ⟨further, isPath, isSome⟩ | ⟨isPrefix, isSome⟩⟩
      · cases isWanted : other.wanted with
        | none => simp [isWanted] at isSome
        | some node => exact (apart other isOther (by rw [isWanted]; rfl)).2 ⟨further, isPath.symm⟩
      · exact (apart other isOther isSome).1 isPrefix
    by_cases above : step.path <+: path
    · left
      obtain ⟨further, isPath⟩ := above
      rw [← isPath, held_wanted stays isSet]
      cases isWanted : step.wanted with
      | none => rfl
      | some node => exact absurd ⟨further, isPath⟩ (apart step isStep (by rw [isWanted]; rfl)).2
    · by_cases below : path <+: step.path
      · right
        have isBelow : path ≠ step.path := fun same => above (same ▸ prefix_refl _)
        have isWanted : step.wanted = none := by
          by_contra isSome
          exact (apart step isStep (Option.isSome_iff_ne_none.mpr isSome)).1 below
        rcases built done step rest isSplit isWanted path below isBelow with
          left | ⟨isSome, -⟩ | ⟨again, isRest, isPrefix⟩
        · exact absurd left notLeft
        · rw [isNone] at isSome
          cases isSome
        · refine ⟨?_, again, isRest, isPrefix⟩
          intro other member isAbove
          rcases mem_append.mp member with isDone | isLast
          · exact notLeft (settled done step rest isSplit isWanted path below isBelow other isDone
              isAbove again isRest isPrefix)
          · rw [mem_singleton.mp isLast] at isAbove
            exact above isAbove
      · rcases upto.makes path apart isNone with gone | ⟨notAbove, again, member, isPrefix⟩
        · left
          rw [held_setPath_apart isSet stays ⟨below, above⟩]
          exact gone
        · right
          refine ⟨?_, again, ?_, isPrefix⟩
          · intro other member
            rcases mem_append.mp member with isDone | isLast
            · exact notAbove other isDone
            · rw [mem_singleton.mp isLast]
              exact above
          · rcases mem_cons.mp member with isFirst | isRest
            · rw [isFirst] at isPrefix
              exact absurd isPrefix above
            · exact isRest

theorem Upto.all (upto : Upto doc steps done rest now) (isSplit : steps = done ++ rest)
    (agrees : Agrees steps) (built : Built doc steps) (settled : Settled steps)
    (findable : Findable doc steps) (isSet : setPaths now rest = some after) :
    Upto doc steps steps [] after := by
  induction rest generalizing done now with
  | nil =>
    rw [← Option.some.inj isSet]
    rw [append_nil] at isSplit
    rw [← isSplit] at upto
    exact upto
  | cons step rest ih =>
    obtain ⟨next, isNext, isRest⟩ := Option.bind_eq_some_iff.mp isSet
    refine ih (upto.next isSplit agrees built settled findable isNext) ?_ isRest
    rw [isSplit, append_assoc]
    rfl

theorem exactly_of (agrees : Agrees steps) (built : Built doc steps) (settled : Settled steps)
    (findable : Findable doc steps) (isSet : setPaths doc steps = some after) :
    Exactly doc steps after := by
  have start : Upto doc steps [] steps doc :=
    { clear := fun step member => (findable step member).1
      holds := nofun
      keeps := fun path apart => rfl
      makes := fun path apart isNone => .inl isNone }
  have whole := start.all rfl agrees built settled findable isSet
  refine ⟨whole.holds, whole.keeps, ?_⟩
  intro path apart isNone
  rcases whole.makes path apart isNone with gone | ⟨-, again, member, -⟩
  · exact gone
  · cases member

/-! ### What an exact change needs -/

theorem agrees_of_exactly (exactly : Exactly doc steps after) : Agrees steps := by
  intro step isStep other isOther further isPath
  rw [← exactly.holds other isOther, ← exactly.holds step isStep, isPath, held_append]

theorem setPaths_append :
    setPaths doc (done ++ rest) = (setPaths doc done).bind (setPaths · rest) := by
  induction done generalizing doc with
  | nil => rfl
  | cons step done ih =>
    rw [cons_append, setPaths, setPaths, Option.bind_assoc]
    congr 1
    funext next
    exact ih

theorem clear_run (findable : Findable doc steps) (clear : Clear steps now)
    (areSteps : ∀ step ∈ run, step ∈ steps) (isSet : setPaths now run = some after) :
    Clear steps after := by
  induction run generalizing now with
  | nil =>
    rw [← Option.some.inj isSet]
    exact clear
  | cons step run ih =>
    obtain ⟨next, isNext, isRest⟩ := Option.bind_eq_some_iff.mp isSet
    have isStep := areSteps step (.head _)
    exact ih (clear_step findable clear isStep isNext)
      (fun other member => areSteps other (.tail _ member)) isRest

theorem held_run (findable : Findable doc steps) (clear : Clear steps now)
    (areSteps : ∀ step ∈ run, step ∈ steps) (notAbove : ∀ step ∈ run, ¬ step.path <+: path)
    (isThere : (held now path).isSome) (isSet : setPaths now run = some after) :
    (held after path).isSome := by
  induction run generalizing now with
  | nil =>
    rw [← Option.some.inj isSet]
    exact isThere
  | cons step run ih =>
    obtain ⟨next, isNext, isRest⟩ := Option.bind_eq_some_iff.mp isSet
    have isStep := areSteps step (.head _)
    have above := notAbove step (.head _)
    refine ih (clear_step findable clear isStep isNext)
      (fun other member => areSteps other (.tail _ member))
      (fun other member => notAbove other (.tail _ member)) ?_ isRest
    by_cases below : path <+: step.path
    · exact held_setPath_above isNext (clear step isStep) below
        (fun same => above (same ▸ prefix_refl _))
    · rw [held_setPath_apart isNext (clear step isStep) ⟨below, above⟩]
      exact isThere

theorem built_of_exactly (findable : Findable doc steps) (isSet : setPaths doc steps = some after)
    (exactly : Exactly doc steps after) : Built doc steps := by
  intro earlier step later isSplit isWanted path isPrefix isAbove
  by_contra unbuilt
  rw [not_or, not_or] at unbuilt
  obtain ⟨notLeft, notHeld, notLater⟩ := unbuilt
  have isStep : step ∈ steps := by simp [isSplit]
  have clear : Clear steps doc := fun other isOther => (findable other isOther).1
  have isRun := isSet
  rw [isSplit, setPaths_append] at isRun
  obtain ⟨before, isBefore, isRest⟩ := Option.bind_eq_some_iff.mp isRun
  obtain ⟨made, isMade, isLater⟩ := Option.bind_eq_some_iff.mp isRest
  have clearBefore := clear_run findable clear (fun other member => by simp [isSplit, member])
    isBefore
  have there : (held after path).isSome := by
    refine held_run findable (clear_step findable clearBefore isStep isMade)
      (fun other member => by simp [isSplit, member])
      (fun other member above => notLater ⟨other, member, above⟩) ?_ isLater
    exact held_setPath_above isMade (clearBefore step isStep) isPrefix isAbove
  -- a step at or above the level holds it too, so it leaves it
  have leftBy : ∀ other ∈ steps, ¬ other.path <+: path := by
    rintro other isOther ⟨further, isPath⟩
    refine notLeft ⟨other, isOther, .inl ⟨further, isPath.symm, ?_⟩⟩
    rw [← isPath, held_append, exactly.holds other isOther] at there
    exact there
  have gone : held after path = none := by
    refine exactly.makes path ?_ ?_
    · intro other isOther isSome
      exact ⟨fun above => notLeft ⟨other, isOther, .inr ⟨above, isSome⟩⟩, leftBy other isOther⟩
    · by_contra isHeld
      refine notHeld ⟨Option.isSome_iff_ne_none.mpr isHeld, ?_⟩
      intro other member
      exact leftBy other (by simp [isSplit, member])
  rw [gone] at there
  cases there

/-- An accepted change whose paths keep to the document is exactly its steps where the steps
agree and what a deletion reaches is there; without agreement it never is. -/
theorem plan_exact (accepted : Accepted refuses doc steps after) :
    (Findable doc steps → Settled steps →
      (Exactly doc steps after ↔ Agrees steps ∧ Built doc steps)) ∧
    (Exactly doc steps after → Agrees steps) := by
  refine ⟨fun findable settled => ⟨fun exactly => ?_, fun holds => ?_⟩, agrees_of_exactly⟩
  · exact ⟨agrees_of_exactly exactly, built_of_exactly findable accepted.isSet exactly⟩
  · exact exactly_of holds.1 holds.2 settled findable accepted.isSet

/-! ### Two steps on one path -/

def unset : Doc := .dict (fun key => if key = "ntp_servers".ascii then some (.list []) else none)

def named (server : Str) : Step := ⟨["ntp_servers".ascii], .list [], .list [.scalar (.text server)]⟩

theorem getPath_unset : getPath unset ["ntp_servers".ascii] = .list [] := rfl

/-- One step naming a server is accepted and is exactly that step. -/
theorem plan_exact_server :
    ∃ after, Accepted (fun _ _ => false) unset [named "10.0.0.1".ascii] after ∧
      Exactly unset [named "10.0.0.1".ascii] after := by
  have accepted : Accepted (fun _ _ => false) unset [named "10.0.0.1".ascii] (.dict (Function.update
      (fun key => if key = "ntp_servers".ascii then some (.list []) else none)
      "ntp_servers".ascii (some (.list [.scalar (.text "10.0.0.1".ascii)])))) :=
    { known := by decide +kernel
      notEmpty := List.cons_ne_nil _ _
      mapping := ⟨_, rfl⟩
      expected := by
        intro step isStep
        rw [List.mem_singleton.mp isStep]
        exact getPath_unset
      isSet := rfl
      passes := rfl }
  have isWritten : (named "10.0.0.1".ascii).wanted =
      some (.list [.scalar (.text "10.0.0.1".ascii)]) := rfl
  refine ⟨_, accepted, ((plan_exact accepted).1 ?_ ?_).mpr ⟨?_, ?_⟩⟩
  · intro step isStep
    rw [List.mem_singleton.mp isStep]
    refine ⟨rfl, fun other isOther further isPath node _ => ?_⟩
    rw [List.mem_singleton.mp isOther] at isPath
    rw [List.self_eq_append_right.mp isPath]
    rfl
  · intro earlier step later isSplit isNone
    have isStep : step ∈ [named "10.0.0.1".ascii] := by simp [isSplit]
    rw [List.mem_singleton.mp isStep, isWritten] at isNone
    cases isNone
  · intro step isStep other isOther further isPath
    rw [List.mem_singleton.mp isStep, List.mem_singleton.mp isOther] at *
    rw [List.self_eq_append_right.mp isPath]
    rfl
  · intro earlier step later isSplit isNone
    have isStep : step ∈ [named "10.0.0.1".ascii] := by simp [isSplit]
    rw [List.mem_singleton.mp isStep, isWritten] at isNone
    cases isNone

/-- Two steps that each expect no server are both accepted, and the second replaces the
first. -/
theorem second_step_replaces : ¬ ∀ (refuses : Doc → Doc → Bool) doc steps after,
    Accepted refuses doc steps after → Exactly doc steps after := by
  intro always
  have exactly := always (fun _ _ => false) unset
    [named "10.0.0.1".ascii, named "10.0.0.2".ascii] _
    { known := by decide +kernel
      notEmpty := List.cons_ne_nil _ _
      mapping := ⟨_, rfl⟩
      expected := by
        intro step isStep
        rcases List.mem_pair.mp isStep with isFirst | isSecond
        · rw [isFirst]
          exact getPath_unset
        · rw [isSecond]
          exact getPath_unset
      isSet := rfl
      passes := rfl }
  have agrees := agrees_of_exactly exactly (named "10.0.0.1".ascii) (by simp)
    (named "10.0.0.2".ascii) (by simp) [] rfl
  have same : some (Doc.list [.scalar (.text "10.0.0.2".ascii)]) =
      some (Doc.list [.scalar (.text "10.0.0.1".ascii)]) := agrees
  simp only [Option.some.injEq, Doc.list.injEq, List.cons.injEq, Doc.scalar.injEq,
    Scalar.text.injEq] at same
  exact absurd same.1 (by decide)

end Nmas.Nsot.BulkIntent
