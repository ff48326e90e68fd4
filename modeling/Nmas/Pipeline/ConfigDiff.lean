import Nmas.Nsot.Merge

/-!
Owns: `_stage_config_diff`, which stops a deploy that would change nothing or
too much, and how it agrees with the program `merge_commands` made.

The stage asks of each command whether its text is a line of the running
configuration, anywhere; the merge asks it under the line's own headers.
-/

namespace Nmas.Pipeline.ConfigDiff

open Nmas.Text List
open Nmas.Nsot

def diffLineThreshold : Nat := 200

def skipStartswith : List Str :=
  ["! Last configuration", "! NVRAM config", "! No configuration", "! Golden config",
    "! Pre-change", "! Saved:", "! Source:", "Building configuration", "Current configuration",
    "ntp clock-period", "upgrade fpd", "version "].map String.ascii

/-- What the stage compared for a device. -/
structure Comparison where
  totalCmds : Nat
  newCmds : Nat
  noOp : Bool
  exceedsThreshold : Bool
  commandsToAdd : List Str
deriving DecidableEq

/-- A device's entry of `diff_summary`. -/
inductive Summary where
  | skipped (reason : Str)
  | compared (comparison : Comparison)
deriving DecidableEq

def Summary.isNoOp : Summary → Bool
  | .skipped _ => false
  | .compared comparison => comparison.noOp

def runningLines (running : Str) : List Str :=
  ((splitlines running).filter (fun line => strip line != [] && !startsWithAny skipStartswith line)).map
    strip

/-- `new_cmds`. -/
def newCommands (running : Str) (commands : List Str) : List Str :=
  commands.filter (fun command =>
    strip command != [] && !(runningLines running).contains (strip command))

/-- The loop's body, as far as `diff_summary`. -/
def summaryOf (running : Str) (commands : List Str) : Summary :=
  if running = [] then .skipped "running config not cached".ascii
  else
    let new := newCommands running commands
    .compared
      { totalCmds := commands.length
        newCmds := new.length
        noOp := new.length = 0
        exceedsThreshold := diffLineThreshold < new.length
        commandsToAdd := new }

/-- What the loop's body appends to `errors`. -/
def errorOf (hostname : Str) : Summary → Option Str
  | .skipped _ => none
  | .compared comparison =>
    if comparison.newCmds = 0 then
      some (hostname ++ ": all ".ascii ++ Nat.toDigits 10 comparison.totalCmds ++
        " rendered command(s) already present in running config ".ascii ++
        '—' :: " no-op deploy aborted".ascii)
    else if diffLineThreshold < comparison.newCmds then
      some (hostname ++ ": ".ascii ++ Nat.toDigits 10 comparison.newCmds ++
        " new command(s) exceeds safety threshold (".ascii ++
        Nat.toDigits 10 diffLineThreshold ++ ") ".ascii ++
        '—' :: " aborting to prevent mass change".ascii)
    else none

/-- A selected device, as the stage reads it. -/
structure Device where
  ip : Str
  hostname : Option Str

structure Context where
  renderedCommands : List (Str × List Str)
  selectedDevices : List Device
  /-- The running configurations of the pre-change snapshots. -/
  preSnapshots : List (Str × Str)

def runningOf (ctx : Context) (ip : Str) : Str :=
  ((ctx.preSnapshots.find? (fun entry => entry.1 = ip)).map Prod.snd).getD []

def hostnameOf (ctx : Context) (ip : Str) : Str :=
  ((ctx.selectedDevices.find? (fun device => device.ip = ip)).bind Device.hostname).getD ip

def diffSummary (ctx : Context) : List (Str × Summary) :=
  ctx.renderedCommands.map (fun entry => (entry.1, summaryOf (runningOf ctx entry.1) entry.2))

def errors (ctx : Context) : List Str :=
  (diffSummary ctx).filterMap (fun entry => errorOf (hostnameOf ctx entry.1) entry.2)

/-- `_stage_config_diff`: the summaries, and what it raises. -/
def stageConfigDiff (ctx : Context) : List (Str × Summary) × Except Str Unit :=
  (diffSummary ctx,
    if errors ctx = [] then .ok ()
    else .error ("Config diff check failed for ".ascii ++ Nat.toDigits 10 (errors ctx).length ++
      " device(s):\n".ascii ++ ['\n'].intercalate (errors ctx)))

/-! ### What a program sends -/

section Sends

variable [Unicode] {intended running : Str} {program : List Str}

/-- A line a program sends that a configuration lacks under the line's own headers. -/
def SendsLacking (running : Str) (program : List Str) : Prop :=
  ∃ entry ∈ programStructure program, canonicalKey (entry.chain, entry.line) ∉ configKeys running

theorem lacking_of_mem_toAddKeyed {key : Key} (wanted : key ∈ toAddKeyed intended running) :
    canonicalKey key = key ∧ key ∉ configKeys running := by
  obtain ⟨isIntended, passes⟩ := mem_filter.mp wanted
  have entry := mem_configKeys.mp isIntended
  have sameLine := (isSectionLine_of_mem entry).canonical
  have sameChain := map_canonicaliseLine_chain entry
  refine ⟨Prod.ext sameChain sameLine, ?_⟩
  intro held
  simp [held] at passes

theorem carried_of_wanted {key : Key} (sent : mergeCommands intended running = .ok program)
    (wanted : key ∈ toAddKeyed intended running) :
    ∃ entry ∈ programStructure program, canonicalKey (entry.chain, entry.line) = canonicalKey key := by
  have isProgram := eq_mergeProgram_of_mergeCommands sent
  have isWanted : key ∈ (mergeDiff intended running).toAddKeyed := wanted
  unfold mergeCommands at sent
  simp only at sent
  split_ifs at sent with nothing disagree
  · rw [nothing] at isWanted
    cases isWanted
  · push Not at disagree
    have kept := filter_eq_nil_iff.mp disagree.1 (canonicalKey key)
      (mem_map.mpr ⟨key, isWanted, rfl⟩)
    have isCarried : canonicalKey key ∈ (programStructure (mergeProgram intended running)).map
        (fun entry => canonicalKey (entry.chain, entry.line)) := by
      simpa using kept
    rw [isProgram]
    exact mem_map.mp isCarried

theorem sendsLacking_iff (sent : mergeCommands intended running = .ok program) :
    SendsLacking running program ↔ program ≠ [] := by
  constructor
  · rintro ⟨entry, member, -⟩ rfl
    cases member
  · intro nonempty
    have isWanted : (mergeDiff intended running).toAddKeyed ≠ [] := by
      intro nothing
      apply nonempty
      unfold mergeCommands at sent
      simp only [nothing, if_true] at sent
      exact (Except.ok.inj sent).symm
    obtain ⟨key, wanted⟩ := exists_mem_of_ne_nil _ isWanted
    obtain ⟨canonical, lacks⟩ := lacking_of_mem_toAddKeyed wanted
    obtain ⟨entry, member, same⟩ := carried_of_wanted sent wanted
    refine ⟨entry, member, ?_⟩
    rw [same, canonical]
    exact lacks

omit [Unicode] in
theorem isNoOp_summaryOf_iff {commands : List Str} :
    (summaryOf running commands).isNoOp ↔ running ≠ [] ∧ newCommands running commands = [] := by
  unfold summaryOf
  split_ifs with isEmpty
  · simp [Summary.isNoOp, isEmpty]
  · simp [Summary.isNoOp, isEmpty]

omit [Unicode] in
theorem newCommands_ne_nil_iff {commands : List Str} :
    newCommands running commands ≠ [] ↔
      ∃ command ∈ commands, strip command ≠ [] ∧ strip command ∉ runningLines running := by
  unfold newCommands
  rw [ne_eq, filter_eq_nil_iff]
  push Not
  constructor
  · rintro ⟨command, member, isNew⟩
    refine ⟨command, member, ?_⟩
    simpa using isNew
  · rintro ⟨command, member, isNew⟩
    refine ⟨command, member, ?_⟩
    simpa using isNew

/-- **The stage and the merge agree on a no-op exactly where** the program is empty and a running
configuration was captured, or some command of the program is no line of it anywhere. -/
theorem noOp_agrees_iff (sent : mergeCommands intended running = .ok program) :
    ((summaryOf running program).isNoOp = true ↔ ¬ SendsLacking running program) ↔
      (program = [] ∧ running ≠ []) ∨
        ∃ command ∈ program, strip command ≠ [] ∧ strip command ∉ runningLines running := by
  rw [sendsLacking_iff sent, isNoOp_summaryOf_iff, ← newCommands_ne_nil_iff, not_not]
  by_cases isEmpty : program = []
  · simp [isEmpty, show newCommands running [] = [] from rfl]
  · -- Without a running configuration every command of the program is new.
    have captured : newCommands running program = [] → running ≠ [] := by
      rintro noneNew rfl
      obtain ⟨entry, member, -⟩ := (sendsLacking_iff sent).mpr isEmpty
      obtain ⟨isCommand, raw, inside, same⟩ := command_of_mem_programStructure member
      have nonBlank : strip raw ≠ [] := by
        have visible := isCommand.nonBlank
        rw [same, strip_rstrip] at visible
        exact visible
      exact newCommands_ne_nil_iff.mpr ⟨raw, inside, nonBlank, List.not_mem_nil⟩ noneNew
    constructor
    · intro agrees
      refine Or.inr fun noneNew => ?_
      exact isEmpty (agrees.mp ⟨captured noneNew, noneNew⟩)
    · rintro (⟨nothing, -⟩ | isNew)
      · exact absurd nothing isEmpty
      · constructor
        · rintro ⟨-, noneNew⟩
          exact absurd noneNew isNew
        · intro nothing
          exact absurd nothing isEmpty

end Sends

/-- A global command whose text an interface already holds. -/
theorem mplsIp_noOp :
    letI : Unicode := basicLatin
    mergeCommands "mpls ip\ninterface Gi1\n mpls ip".ascii "interface Gi1\n mpls ip".ascii =
        .ok ["mpls ip".ascii] ∧
      (summaryOf "interface Gi1\n mpls ip".ascii ["mpls ip".ascii]).isNoOp = true ∧
      ¬ ((summaryOf "interface Gi1\n mpls ip".ascii ["mpls ip".ascii]).isNoOp = true ↔
        ¬ SendsLacking "interface Gi1\n mpls ip".ascii ["mpls ip".ascii]) := by
  let _ : Unicode := basicLatin
  have isNoOp : (summaryOf "interface Gi1\n mpls ip".ascii ["mpls ip".ascii]).isNoOp = true := by
    decide +kernel
  refine ⟨by decide +kernel, isNoOp, ?_⟩
  intro agrees
  apply agrees.mp isNoOp
  exact ⟨⟨"mpls ip".ascii, [], true⟩, by decide +kernel, by decide +kernel⟩

/-- A command the device holds nowhere. -/
theorem ntpServer_agrees :
    letI : Unicode := basicLatin
    ((summaryOf "ntp server 192.0.2.1".ascii ["ntp server 192.0.2.2".ascii]).isNoOp = true ↔
        ¬ SendsLacking "ntp server 192.0.2.1".ascii ["ntp server 192.0.2.2".ascii]) ↔
      (["ntp server 192.0.2.2".ascii] = [] ∧ "ntp server 192.0.2.1".ascii ≠ []) ∨
        ∃ command ∈ ["ntp server 192.0.2.2".ascii],
          strip command ≠ [] ∧ strip command ∉ runningLines "ntp server 192.0.2.1".ascii :=
  letI : Unicode := basicLatin
  have sent : mergeCommands "ntp server 192.0.2.1\nntp server 192.0.2.2".ascii
      "ntp server 192.0.2.1".ascii = .ok ["ntp server 192.0.2.2".ascii] := by
    decide +kernel
  noOp_agrees_iff sent

end Nmas.Pipeline.ConfigDiff
