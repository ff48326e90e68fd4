import Nmas.Nsot.Program
import Nmas.Nsot.Diff.Classify
import Nmas.Outline.Modes

/-!
Owns: `deploy.merge_commands`, the program a deploy sends, and what a device
does with it.

The loop of the source is `mergeFrom`: it takes each wanted line once, in the
order of the intended configuration, and moves to its section first. It selects
lines and emits them in one pass; `mergeFrom_eq` separates the two, so that the
program is an emission over the lines selected and runs as `Outline.Modes` says
emissions run.
-/

namespace Nmas.Nsot

open Nmas.Text List
open Nmas.Nsot.IfNames

/-- The loop of `merge_commands` with its closing exits: the program, and the
wanted lines it never met. -/
def mergeFrom (containers : List (List Str)) (remaining : List Key) (openChain : List Str) :
    List (Str × List Str) → List Str × List Key
  | [] => (Outline.leave exitWord openChain, remaining)
  | (line, chain) :: rest =>
    if (chain, line) ∈ remaining then
      let done := mergeFrom containers (remaining.filter (fun key => key != (chain, line)))
        (if chain ++ [line] ∈ containers then chain ++ [line] else chain) rest
      (Outline.moveTo exitWord openChain chain ++ line :: done.1, done.2)
    else mergeFrom containers remaining openChain rest

def selectFrom (remaining : List Key) : List (Str × List Str) → List Key
  | [] => []
  | (line, chain) :: rest =>
    if (chain, line) ∈ remaining then
      (chain, line) :: selectFrom (remaining.filter (fun key => key != (chain, line))) rest
    else selectFrom remaining rest

section Commands

variable [Unicode] (intended running : Str)

/-- `_key`: a line with its section in canonical spelling. -/
def canonicalKey (key : Key) : Key := (key.1.map canonicaliseLine, canonicaliseLine key.2)

/-- The program `merge_commands` builds, before it is checked. -/
def mergeProgram : List Str :=
  (mergeFrom (configHeaders intended) (mergeDiff intended running).toAddKeyed []
    (sectionChains intended)).1

def mergeCommands : Except DeployError (List Str) :=
  let wanted := (mergeDiff intended running).toAddKeyed
  if wanted = [] then .ok []
  else
    let commands := mergeProgram intended running
    let expected := wanted.map canonicalKey
    let carried := (programStructure commands).map
      (fun entry => canonicalKey (entry.chain, entry.line))
    let leaves := (programLeaves commands).map (fun leaf => canonicalKey leaf.key)
    let dropped := expected.filter (fun key => !carried.contains key)
    let invented := leaves.filter (fun key => !expected.contains key)
    if dropped ≠ [] ∨ invented ≠ [] then .error (.disagree dropped invented)
    else do
      assertSendable commands
      return commands

end Commands

/-! ### Selecting and emitting -/

section Selection

variable {containers : List (List Str)} {remaining : List Key} {entries : List (Str × List Str)}

theorem mergeFrom_eq (containers : List (List Str)) (remaining : List Key) (openChain : List Str)
    (entries : List (Str × List Str)) :
    (mergeFrom containers remaining openChain entries).1 =
      Outline.emitFrom (fun level => decide (level ∈ containers)) exitWord openChain
        (selectFrom remaining entries) := by
  induction entries generalizing remaining openChain with
  | nil => rfl
  | cons entry rest ih =>
    obtain ⟨line, chain⟩ := entry
    rw [mergeFrom, selectFrom]
    split_ifs with wanted opens
    · simp only [Outline.emitFrom, Outline.after, opens, decide_true, if_true, ih]
    · simp only [Outline.emitFrom, Outline.after, opens, decide_false, Bool.false_eq_true,
        if_false, ih]
    · exact ih remaining openChain

theorem mem_of_mem_selectFrom {key : Key} (member : key ∈ selectFrom remaining entries) :
    key ∈ remaining ∧ (key.2, key.1) ∈ entries := by
  induction entries generalizing remaining with
  | nil => cases member
  | cons entry rest ih =>
    obtain ⟨line, chain⟩ := entry
    rw [selectFrom] at member
    split_ifs at member with wanted
    · rcases mem_cons.mp member with rfl | later
      · exact ⟨wanted, mem_cons_self⟩
      · obtain ⟨stillWanted, found⟩ := ih later
        exact ⟨mem_of_mem_filter stillWanted, mem_cons_of_mem _ found⟩
    · exact (ih member).imp_right (mem_cons_of_mem _)

theorem mem_selectFrom {key : Key} (wanted : key ∈ remaining) (found : (key.2, key.1) ∈ entries) :
    key ∈ selectFrom remaining entries := by
  induction entries generalizing remaining with
  | nil => cases found
  | cons entry rest ih =>
    obtain ⟨line, chain⟩ := entry
    rw [selectFrom]
    by_cases here : key = (chain, line)
    · subst here
      rw [if_pos wanted]
      exact mem_cons_self
    · have later : (key.2, key.1) ∈ rest := by
        refine (mem_cons.mp found).resolve_left fun same => here ?_
        exact Prod.ext (congrArg Prod.snd same) (congrArg Prod.fst same)
      split_ifs with taken
      · refine mem_cons_of_mem _ (ih ?_ later)
        exact mem_filter.mpr ⟨wanted, by simpa using here⟩
      · exact ih wanted later

end Selection

/-! ### Running the program -/

section Run

variable [Unicode]

/-- A device enters a level when its path is a section of the intended
configuration. -/
def opensSection (intended : Str) (level : List Str) : Bool := level ∈ configHeaders intended

def mergePairs (intended running : Str) : List Key :=
  selectFrom (mergeDiff intended running).toAddKeyed (sectionChains intended)

variable {intended running : Str}

theorem mergeProgram_eq (intended running : Str) :
    mergeProgram intended running =
      Outline.emit (opensSection intended) exitWord (mergePairs intended running) :=
  mergeFrom_eq _ _ _ _

theorem mem_mergePairs {key : Key} :
    key ∈ mergePairs intended running ↔ key ∈ (mergeDiff intended running).toAddKeyed := by
  constructor
  · intro member
    exact (mem_of_mem_selectFrom member).1
  · intro wanted
    refine mem_selectFrom wanted (mem_configKeys.mp ?_)
    exact mem_of_mem_filter (show key ∈ toAddKeyed intended running from wanted)

theorem eq_mergeProgram_of_mergeCommands {program : List Str}
    (sent : mergeCommands intended running = .ok program) :
    program = mergeProgram intended running := by
  unfold mergeCommands at sent
  simp only at sent
  split_ifs at sent with nothing disagree
  · cases sent
    have noPairs : mergePairs intended running = [] := by
      refine eq_nil_iff_forall_not_mem.mpr fun key member => ?_
      have wanted := mem_mergePairs.mp member
      rw [nothing] at wanted
      cases wanted
    rw [mergeProgram_eq, noPairs]
    rfl
  · cases sendable : assertSendable (mergeProgram intended running) with
    | error refusal => rw [sendable] at sent; cases sent
    | ok _ => rw [sendable] at sent; cases sent; rfl

theorem sectionLine_of_mem_program {program : List Str}
    (sent : mergeCommands intended running = .ok program) {command : Str}
    (member : command ∈ program) : command = exitWord ∨ IsSectionLine command := by
  rw [eq_mergeProgram_of_mergeCommands sent, mergeProgram_eq, Outline.emit] at member
  rcases Outline.mem_emitFrom member with isExit | ⟨key, inPairs, source⟩
  · exact .inl isExit
  · refine .inr ?_
    have entry := (mem_of_mem_selectFrom inPairs).2
    rcases source with rfl | inChain
    · exact isSectionLine_of_mem entry
    · exact isSectionLine_of_mem_chain entry inChain

theorem sectionLine_of_mem_programStructure {program : List Str}
    (sent : mergeCommands intended running = .ok program) {entry : ProgramEntry}
    (member : entry ∈ programStructure program) :
    IsSectionLine entry.line ∧ ∀ header ∈ entry.chain, IsSectionLine header := by
  have ofEntry : ∀ entry ∈ programStructure program, IsSectionLine entry.line := by
    intro entry member
    obtain ⟨isCommand, raw, inside, same⟩ := command_of_mem_programStructure member
    rcases sectionLine_of_mem_program sent inside with rfl | sectionLine
    · rw [same] at isCommand
      exact absurd isCommand.notControl (by decide)
    · rwa [same, sectionLine.trimmed]
  refine ⟨ofEntry entry member, fun header inChain => ?_⟩
  obtain ⟨above, below, split⟩ := append_of_mem inChain
  have isPrefix : above ++ [header] <+: entry.chain := ⟨below, by simp [split]⟩
  exact ofEntry _ (ancestor_mem_programStructure member isPrefix)

/-- **A merge program runs every line in its own section** and returns to global
configuration mode, when no line of the intended configuration is itself a
control word. The other commands it executes are headers of a sent line, each
in the level above it. -/
theorem merge_program_runs {program : List Str}
    (sent : mergeCommands intended running = .ok program)
    (noControl : ∀ entry ∈ sectionChains intended, isControl entry.1 = false) :
    ∃ trace, Outline.run (opensSection intended) isControl [] program = some (trace, []) ∧
      (∀ key ∈ (mergeDiff intended running).toAddKeyed, key ∈ trace) ∧
      ∀ executed ∈ trace, executed ∈ (mergeDiff intended running).toAddKeyed ∨
        ∃ key ∈ (mergeDiff intended running).toAddKeyed, executed.1 ++ [executed.2] <+: key.1 := by
  have entryOf : ∀ key ∈ mergePairs intended running, (key.2, key.1) ∈ sectionChains intended :=
    fun key member => (mem_of_mem_selectFrom member).2
  have notExit : ∀ key ∈ mergePairs intended running,
      isControl key.2 = false ∧ ∀ header ∈ key.1, isControl header = false := by
    intro key member
    refine ⟨noControl _ (entryOf key member), fun header inChain => ?_⟩
    obtain ⟨above, below, split⟩ := List.append_of_mem inChain
    have isPrefix : above ++ [header] <+: key.1 := ⟨below, by simp [split]⟩
    exact noControl _ (ancestor_mem_sectionChains (entryOf key member) isPrefix)
  have container : ∀ key ∈ mergePairs intended running, ∀ above header,
      above ++ [header] <+: key.1 → opensSection intended (above ++ [header]) = true := by
    intro key member above header isPrefix
    exact decide_eq_true (Outline.mem_headers.mpr ⟨by simp, _, entryOf key member, isPrefix⟩)
  refine ⟨Outline.traceFrom (opensSection intended) [] (mergePairs intended running), ?_, ?_, ?_⟩
  · rw [eq_mergeProgram_of_mergeCommands sent, mergeProgram_eq]
    exact Outline.run_emitFrom (by decide) _ _ notExit container
  · intro key wanted
    exact Outline.mem_traceFrom_of_mem _ (mem_mergePairs.mpr wanted)
  · rintro ⟨stack, command⟩ executed
    rcases Outline.mem_of_mem_traceFrom executed with own | ⟨key, member, isPrefix⟩
    · exact Or.inl (mem_mergePairs.mp own)
    · exact Or.inr ⟨key, mem_mergePairs.mp member, isPrefix⟩

end Run

/-- A neighbor added inside an address family of a new BGP process. -/
theorem address_family_program_runs :
    letI : Unicode := basicLatin
    ∃ trace, Outline.run (opensSection
        "router bgp 1\n address-family ipv4\n  neighbor 192.0.2.1 activate".ascii) isControl []
        (["router bgp 1", " address-family ipv4", "  neighbor 192.0.2.1 activate", "exit",
          "exit"].map String.ascii) = some (trace, []) ∧
      (∀ key ∈ (mergeDiff "router bgp 1\n address-family ipv4\n  neighbor 192.0.2.1 activate".ascii
          []).toAddKeyed, key ∈ trace) ∧
      ∀ executed ∈ trace,
        executed ∈ (mergeDiff
          "router bgp 1\n address-family ipv4\n  neighbor 192.0.2.1 activate".ascii
          []).toAddKeyed ∨
        ∃ key ∈ (mergeDiff "router bgp 1\n address-family ipv4\n  neighbor 192.0.2.1 activate".ascii
          []).toAddKeyed, executed.1 ++ [executed.2] <+: key.1 :=
  letI : Unicode := basicLatin
  merge_program_runs (by decide +kernel) (by decide +kernel)

end Nmas.Nsot
