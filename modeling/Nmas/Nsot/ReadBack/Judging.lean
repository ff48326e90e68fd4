import Nmas.Nsot.PlatformDefaults
import Nmas.Nsot.ReadBack.Accounts
import Nmas.Nsot.ReadBack.Vlans

/-!
Owns: `verify_scope.read_back`, each line of a program looked for in the
configuration a device runs after the push. `readRunning` makes the two indexes
of the source, the leaves as keys and the terminal-line stanzas by range;
`judge` is the body of its loop for one line, and `Report.add` what the loop
notes of it.

`redact_positional` masks what stands in a secret's position by a table of
patterns. The read-back asks it only whether a line has such a position and for
the line with it masked, so it is a parameter here and every result holds
whatever it answers.
-/

namespace Nmas.Nsot.ReadBack

open Nmas.Text List
open Nmas.Nsot.IfNames
open Nmas.Nsot.Rollback
open Nmas.Nsot.PlatformDefaults (hidden)

/-! ### What is reported -/

inductive Problem
  /-- The empty text: it is not in its section. -/
  | unheld
  /-- "missing on …" -/
  | lacking (kind : Str) (members : List Nat)
  /-- "no printed stanza covers …" -/
  | uncovered (kind : Str) (members : List Nat)
deriving DecidableEq

/-- Why a line is missing. -/
inductive Miss
  | absentVlan (vlan : VlanId)
  | renamedVlan (vlan : VlanId) (named wanted : Str)
  | stillPrinted (still : Str)
  | account (why : AccountMiss)
  | notHeld (problems : List Problem)
deriving DecidableEq

inductive SkipReason
  /-- "a `no` line under a terminal-line range is not read back" -/
  | rangeNegation
  /-- "a `no` line under a VLAN is the VLAN database's, not read back" -/
  | vlanNegation
  /-- "a secret the device stores in another form" -/
  | secret
  /-- "a banner reads back in the device's own delimiter" -/
  | banner
  | hidden (reason : String)
deriving DecidableEq

/-- An entry of the report: the line as it is shown, and what was found. -/
structure Entry (Found : Type) where
  line : Str
  why : Found
deriving DecidableEq

/-- What the loop makes of one line. -/
inductive Judged
  | unread (entry : Entry (VlanId × Unreadable))
  | skipped (entry : Entry SkipReason)
  | checked (missing : Option (Entry Miss))
deriving DecidableEq

/-- `read_back`'s answer. -/
structure Report where
  missing : List (Entry Miss)
  skipped : List (Entry SkipReason)
  checked : Nat
  unread : List (Entry (VlanId × Unreadable))
deriving DecidableEq

/-- What the loop notes of a line. -/
def Report.add (result : Report) : Judged → Report
  | .unread entry => { result with unread := result.unread ++ [entry] }
  | .skipped entry => { result with skipped := result.skipped ++ [entry] }
  | .checked missing =>
    { result with checked := result.checked + 1, missing := result.missing ++ missing.toList }

/-! ### The indexes -/

section Indexes

variable [Unicode]

def sectionKey (chain : List Str) : List Str := chain.map (fun header => strip (canonicaliseLine header))

def lineWords (line : Str) : List Str := words (canonicaliseLine line)

/-- `key`. -/
def readKey (chain : List Str) (line : Str) : Key := (sectionKey chain, joinWords (lineWords line))

def rangeOf (chain : List Str) : Option LineRange :=
  chain.head?.bind (fun header => lineRange (strip header))

/-- A configuration as `read_back` reads it. -/
structure Running where
  text : Str
  held : List Key
  stanzas : List (LineRange × List Key)
deriving DecidableEq

def ranged (leaves : List Leaf) : List (LineRange × Key) :=
  leaves.filterMap (fun leaf =>
    (rangeOf leaf.chain).map (fun range => (range, readKey leaf.chain.tail leaf.line)))

/-- What `read_back` makes of a running configuration. The index of the stanzas
has the printed ranges for its keys; a leaf under any other range is the
`KeyError`. -/
def readRunning (running : Str) : Except LineRange Running :=
  let leaves := configLeaves running
  let printed := (preLineStanzas running).map LineStanza.range
  match (ranged leaves).find? (fun entry => !printed.contains entry.1) with
  | some entry => .error entry.1
  | none => .ok
      { text := running
        held := leaves.map (fun leaf => readKey leaf.chain leaf.line)
        stanzas := printed.eraseDups.map (fun range =>
          (range, ((ranged leaves).filter (fun entry => entry.1 == range)).map Prod.snd)) }

end Indexes

/-! ### One line -/

section Line

variable [Unicode]

/-- `got == positive or got.startswith(positive + " ")`. -/
def begins (positive got : Str) : Bool := got == positive || (positive ++ [' ']).isPrefixOf got

/-- What one held leaf keeps of a negated line: itself in the same section, or
the stanza below that section it stands in. -/
def standsUnder (own : List Str) (positive : Str) (got : Key) : Option Str :=
  if got.1 = own ∧ begins positive got.2 = true then some got.2
  else if own.isPrefixOf got.1 then
    (got.1.drop own.length).head?.filter (fun header => begins positive header)
  else none

/-- `negated_still`; the empty text when nothing stands. The source goes through
a set, so which of several lines it names is left open. -/
def negatedStill (held : List Key) (chain : List Str) (line : Str) : Str :=
  let own := readKey chain line
  if held.contains own then []
  else (held.findSome? (standsUnder own.1 (own.2.drop 3))).getD []

def problems (running : Running) (chain : List Str) (line : Str) : List Problem :=
  match rangeOf chain with
  | none => if running.held.contains (readKey chain line) then [] else [.unheld]
  | some range =>
    let wanted := readKey chain.tail line
    match running.stanzas.find? (fun stanza => stanza.1 == range) with
    | some stanza => if stanza.2.contains wanted then [] else [.unheld]
    | none =>
      let covering := fun member => running.stanzas.filter (fun stanza =>
        stanza.1.kind == range.kind && stanza.1.first ≤ member && member ≤ stanza.1.last)
      let uncovered := range.numbers.filter (fun member => covering member == [])
      let lacking := range.numbers.filter (fun member =>
        covering member != [] && !(covering member).any (fun stanza => stanza.2.contains wanted))
      (if lacking = [] then [] else [.lacking range.kind lacking]) ++
        (if uncovered = [] then [] else [.uncovered range.kind uncovered])

/-- `line.startswith("no ")`. -/
def isNegated (leaf : Leaf) : Bool := "no ".ascii.isPrefixOf (strip leaf.line)

/-- `top`: the section a line stands in, its own line at the top. -/
def topOf (leaf : Leaf) : Str := strip (leaf.chain.head?.getD (strip leaf.line))

def shown (leaf : Leaf) : Str := " > ".ascii.intercalate (leaf.chain ++ [strip leaf.line])

def accountOf (leaf : Leaf) : Option AccountForm :=
  if leaf.chain = [] then accountForm (strip leaf.line) else none

/-- What `show vlan id` answered for a VLAN. -/
def vlanRead (vlans : VlanId → Option Str) (vlan : VlanId) : VlanRead :=
  match vlans vlan with
  | some answer => parse vlan answer
  | none => .unreadable .notRead

variable (redactPositional : Str → Str) (vlans : VlanId → Option Str)

def judgeVlan (vlan : VlanId) (leaf : Leaf) : Judged :=
  match vlanRead vlans vlan with
  | .unreadable why => .unread ⟨shown leaf, (vlan, why)⟩
  | .absent _ => .checked (some ⟨shown leaf, .absentVlan vlan⟩)
  | .present name _ _ =>
    if wantedName leaf ≠ [] ∧ name ≠ wantedName leaf then
      .checked (some ⟨shown leaf, .renamedVlan vlan name (wantedName leaf)⟩)
    else .checked none

/-- A `no` line. -/
def judgeNegated (running : Running) (leaf : Leaf) : Judged :=
  if (lineRange (topOf leaf)).isSome then .skipped ⟨shown leaf, .rangeNegation⟩
  else if leaf.chain ≠ [] ∧ (vlanOf (topOf leaf)).isSome then .skipped ⟨shown leaf, .vlanNegation⟩
  else
    let still := negatedStill running.held leaf.chain (strip leaf.line)
    .checked (if still = [] then none else some ⟨shown leaf, .stillPrinted still⟩)

def judgeLine (running : Running) (leaf : Leaf) : Judged :=
  let line := strip leaf.line
  if redactPositional line ≠ line then .skipped ⟨redactPositional (shown leaf), .secret⟩
  else if family (topOf leaf) = "banners".ascii then .skipped ⟨shown leaf, .banner⟩
  else
    let found := problems running leaf.chain leaf.line
    match hidden leaf.chain line with
    | some reason =>
      if found ≠ [] then .skipped ⟨shown leaf, .hidden reason⟩ else .checked none
    | none => .checked (if found = [] then none else some ⟨shown leaf, .notHeld found⟩)

/-- The body of `read_back`'s loop. -/
def judge (running : Running) (leaf : Leaf) : Judged :=
  match vlanJudged leaf with
  | some vlan => judgeVlan vlans vlan leaf
  | none =>
    if isNegated leaf then judgeNegated running leaf
    else
      match accountOf leaf with
      | some account => .checked ((accountHeld account running.text).map (fun why =>
        ⟨redactPositional (shown leaf), .account why⟩))
      | none => judgeLine redactPositional running leaf

/-- The loop of `read_back`. -/
def readLeaves (running : Running) (leaves : List Leaf) : Report :=
  leaves.foldl (fun result leaf => result.add (judge redactPositional vlans running leaf))
    ⟨[], [], 0, []⟩

def readBack (commands : List Str) (running : Str) : Except LineRange Report := do
  let device ← readRunning running
  return readLeaves redactPositional vlans device (programLeaves commands)

end Line

/-! ### The indexes, read off the configuration -/

section Reading

variable [Unicode] {running : Str} {device : Running}

theorem mem_ranged {leaves : List Leaf} {range : LineRange} {key : Key} :
    (range, key) ∈ ranged leaves ↔
      ∃ leaf ∈ leaves, rangeOf leaf.chain = some range ∧ readKey leaf.chain.tail leaf.line = key := by
  simp only [ranged, mem_filterMap, Option.map_eq_some_iff, Prod.mk.injEq]
  constructor
  · rintro ⟨leaf, member, _, found, rfl, rfl⟩
    exact ⟨leaf, member, found, rfl⟩
  · rintro ⟨leaf, member, found, rfl⟩
    exact ⟨leaf, member, range, found, rfl, rfl⟩

theorem readRunning_ok_iff :
    (∃ device, readRunning running = .ok device) ↔
      ∀ leaf ∈ configLeaves running, ∀ range, rangeOf leaf.chain = some range →
        ∃ stanza ∈ preLineStanzas running, stanza.range = range := by
  simp only [readRunning]
  cases found : (ranged (configLeaves running)).find?
      (fun entry => !((preLineStanzas running).map LineStanza.range).contains entry.1) with
  | some entry =>
    obtain ⟨range, key⟩ := entry
    have inRanged := mem_of_find?_eq_some found
    have absent := List.find?_some found
    obtain ⟨leaf, member, ranges, _⟩ := mem_ranged.mp inRanged
    simp only [reduceCtorEq, exists_false, false_iff]
    intro printed
    obtain ⟨stanza, inside, same⟩ := printed leaf member range ranges
    simp only [contains_eq_mem, mem_map, Bool.not_eq_true',
      decide_eq_false_iff_not] at absent
    exact absent ⟨stanza, inside, same⟩
  | none =>
    simp only [Except.ok.injEq, exists_eq', true_iff]
    intro leaf member range ranges
    have present := List.find?_eq_none.mp found _ (mem_ranged.mpr ⟨leaf, member, ranges, rfl⟩)
    simpa using present

variable (read : readRunning running = .ok device)

include read

private theorem readRunning_eq :
    device =
      { text := running
        held := (configLeaves running).map (fun leaf => readKey leaf.chain leaf.line)
        stanzas := ((preLineStanzas running).map LineStanza.range).eraseDups.map (fun range =>
          (range, ((ranged (configLeaves running)).filter (fun entry => entry.1 == range)).map
            Prod.snd)) } := by
  unfold readRunning at read
  simp only at read
  split at read
  · cases read
  · cases read
    rfl

theorem text_eq : device.text = running := by rw [readRunning_eq read]

theorem mem_held {key : Key} :
    key ∈ device.held ↔ ∃ leaf ∈ configLeaves running, readKey leaf.chain leaf.line = key := by
  rw [readRunning_eq read]
  exact mem_map

theorem mem_stanzas {entry : LineRange × List Key} (member : entry ∈ device.stanzas) :
    (∃ stanza ∈ preLineStanzas running, stanza.range = entry.1) ∧
      ∀ key, key ∈ entry.2 ↔ ∃ leaf ∈ configLeaves running,
        rangeOf leaf.chain = some entry.1 ∧ readKey leaf.chain.tail leaf.line = key := by
  rw [readRunning_eq read] at member
  simp only [mem_map, mem_eraseDups] at member
  obtain ⟨range, ⟨stanza, inside, same⟩, rfl⟩ := member
  refine ⟨⟨stanza, inside, same⟩, fun key => ?_⟩
  rw [← mem_ranged]
  simp only [mem_map, mem_filter, beq_iff_eq]
  constructor
  · rintro ⟨found, ⟨inRanged, rfl⟩, rfl⟩
    exact inRanged
  · intro inRanged
    exact ⟨_, ⟨inRanged, rfl⟩, rfl⟩

theorem stanza_indexed {stanza : LineStanza} (inside : stanza ∈ preLineStanzas running) :
    ∃ entry ∈ device.stanzas, entry.1 = stanza.range := by
  rw [readRunning_eq read]
  simp only [mem_map, mem_eraseDups]
  exact ⟨_, ⟨stanza.range, ⟨stanza, inside, rfl⟩, rfl⟩, rfl⟩

end Reading

end Nmas.Nsot.ReadBack
