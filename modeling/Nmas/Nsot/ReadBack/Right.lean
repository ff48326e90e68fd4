import Nmas.Nsot.ReadBack.Judging

/-!
Owns: what a read-back that misses nothing says. `problems_eq_nil_iff` and
`negatedStill_eq_nil_iff` say what the two lookups find in terms of the leaves
of the running configuration; `read_back_right` collects them over a program.

A line is found up to its spelling: interface names are made canonical, the
words of a line may stand at any distance and its headers are read without the
white space around them. `respaced_held` is a line that is held so and that the
configuration does not have as it was sent.
-/

namespace Nmas.Nsot.ReadBack

open Nmas.Text List
open Nmas.Nsot.IfNames
open Nmas.Nsot.Rollback

variable [Unicode]

/-! ### Where a line is held -/

/-- A leaf of a configuration that reads as a line of a program. -/
structure ReadsAs (printed leaf : Leaf) : Prop where
  section_ : sectionKey printed.chain = sectionKey leaf.chain
  line : lineWords printed.line = lineWords leaf.line

structure ReadsIn (range : LineRange) (printed leaf : Leaf) : Prop where
  range : rangeOf printed.chain = some range
  below : sectionKey printed.chain.tail = sectionKey leaf.chain.tail
  line : lineWords printed.line = lineWords leaf.line

/-- A stanza the configuration prints over one terminal line holds a line. -/
def HeldOn (running : Str) (kind : Str) (member : Nat) (leaf : Leaf) : Prop :=
  ∃ stanza ∈ preLineStanzas running, stanza.has kind member = true ∧
    ∃ printed ∈ configLeaves running, ReadsIn stanza.range printed leaf

/-- A configuration holds a line under its section, under a terminal-line header
on every member of the range. -/
def Held (running : Str) (leaf : Leaf) : Prop :=
  match rangeOf leaf.chain with
  | none => ∃ printed ∈ configLeaves running, ReadsAs printed leaf
  | some range => ∀ member, range.first ≤ member → member ≤ range.last →
      HeldOn running range.kind member leaf

/-- Where the configuration prints the very range a line was sent under, that
range's stanzas hold it. -/
def HeldWhereSent (running : Str) (leaf : Leaf) : Prop :=
  ∀ range, rangeOf leaf.chain = some range →
    (∃ stanza ∈ preLineStanzas running, stanza.range = range) →
      ∃ printed ∈ configLeaves running, ReadsIn range printed leaf

/-- The words a `no` line takes back. -/
def deniedWords (leaf : Leaf) : List Str := (lineWords (strip leaf.line)).tail

/-- A configuration shows the absence a `no` line claims: it prints the `no`
form itself, or no leaf of the section starts with the words taken back. -/
def Absent (running : Str) (leaf : Leaf) : Prop :=
  (∃ printed ∈ configLeaves running, ReadsAs printed ⟨strip leaf.line, leaf.chain⟩) ∨
    ∀ printed ∈ configLeaves running, sectionKey printed.chain = sectionKey leaf.chain →
      ¬ deniedWords leaf <+: lineWords printed.line

/-- A line that the read-back neither skips nor leaves unread. -/
def Checked (redactPositional : Str → Str) (vlans : VlanId → Option Str) (running : Str)
    (leaf : Leaf) : Prop :=
  ∃ device missing, readRunning running = .ok device ∧
    judge redactPositional vlans device leaf = .checked missing

/-! ### Keys -/

theorem readKey_eq_iff {chain chain' : List Str} {line line' : Str} :
    readKey chain line = readKey chain' line' ↔
      sectionKey chain = sectionKey chain' ∧ lineWords line = lineWords line' := by
  unfold readKey
  rw [Prod.mk.injEq]
  refine and_congr_right fun _ => ⟨fun same => ?_, fun same => by rw [same]⟩
  have read := congrArg words same
  unfold lineWords at read ⊢
  rwa [words_joinWords_words, words_joinWords_words] at read

theorem readsAs_iff {printed leaf : Leaf} :
    ReadsAs printed leaf ↔ readKey printed.chain printed.line = readKey leaf.chain leaf.line := by
  rw [readKey_eq_iff]
  exact ⟨fun reads => ⟨reads.section_, reads.line⟩, fun ⟨same, line⟩ => ⟨same, line⟩⟩

theorem readsIn_iff {range : LineRange} {printed leaf : Leaf} :
    ReadsIn range printed leaf ↔ rangeOf printed.chain = some range ∧
      readKey printed.chain.tail printed.line = readKey leaf.chain.tail leaf.line := by
  rw [readKey_eq_iff]
  exact ⟨fun reads => ⟨reads.range, reads.below, reads.line⟩,
    fun ⟨range, below, line⟩ => ⟨range, below, line⟩⟩

omit [Unicode] in
theorem begins_joinWords {positive : List Str} {got : List Str} (nonempty : positive ≠ [])
    (isPrefix : positive <+: got) : begins (joinWords positive) (joinWords got) := by
  obtain ⟨back, rfl⟩ := isPrefix
  unfold begins
  rw [Bool.or_eq_true, beq_iff_eq, isPrefixOf_iff_prefix]
  exact joinWords_append nonempty

omit [Unicode] in
theorem words_of_begins {positive : List Str} {got : Str}
    (areWords : ∀ word ∈ positive, word ≠ [] ∧ ∀ c ∈ word, isSpace c = false)
    (beginning : begins (joinWords positive) got) : positive <+: words got := by
  unfold begins at beginning
  rw [Bool.or_eq_true, beq_iff_eq, isPrefixOf_iff_prefix] at beginning
  rcases beginning with rfl | ⟨back, rfl⟩
  · rw [words_joinWords areWords]
  · rw [append_assoc, singleton_append, words_append_space (by decide),
      words_joinWords areWords]
    exact prefix_append _ _

/-! ### Negations -/

section Negation

variable {leaf : Leaf}

theorem lineWords_of_isNegated (negated : isNegated leaf) :
    lineWords (strip leaf.line) = "no".ascii :: deniedWords leaf ∧ deniedWords leaf ≠ [] := by
  obtain ⟨body, split⟩ := isPrefixOf_iff_prefix.mp negated
  obtain ⟨rest, canonical⟩ := canonicaliseLine_starts_no body
  have asWords : lineWords (strip leaf.line) = "no".ascii :: words rest := by
    rw [lineWords, ← split, canonical]
    have spaced : "no ".ascii ++ rest = "no".ascii ++ ' ' :: rest := rfl
    rw [spaced, words_cons (by decide) (by decide) (by decide)]
  have same : deniedWords leaf = words rest := by rw [deniedWords, asWords, tail_cons]
  refine ⟨by rw [same, asWords], ?_⟩
  rw [same]
  intro noWords
  -- The last character of a stripped line is visible, and canonical spelling keeps it.
  have trimmed : ∀ c, (strip leaf.line).getLast? = some c → isSpace c = false :=
    rstrip_eq_self_iff.mp rstrip_rstrip
  have noNewline : ("no ".ascii ++ body).getLast? ≠ some '\n' := by
    intro isLast
    exact absurd (trimmed _ (split ▸ isLast)) (by decide)
  have keepsLast := canonicaliseLine_getLast? noNewline
  rw [canonical, split] at keepsLast
  have blank : ∀ c ∈ rest, isSpace c := words_eq_nil_iff.mp noWords
  have spaced : ∃ c, ("no ".ascii ++ rest).getLast? = some c ∧ isSpace c := by
    cases rest using List.reverseRecOn with
    | nil => exact ⟨' ', rfl, by decide⟩
    | append_singleton front c =>
      exact ⟨c, by rw [← append_assoc, List.getLast?_append_of_ne_nil _ (by simp)]; rfl,
        blank c (by simp)⟩
  obtain ⟨c, isLast, space⟩ := spaced
  rw [isLast] at keepsLast
  exact absurd (trimmed c keepsLast.symm) (by simp [space])

theorem positive_eq (negated : isNegated leaf) :
    (readKey leaf.chain (strip leaf.line)).2.drop 3 = joinWords (deniedWords leaf) := by
  obtain ⟨asWords, nonempty⟩ := lineWords_of_isNegated negated
  obtain ⟨second, more, split⟩ := exists_cons_of_ne_nil nonempty
  rw [readKey, asWords, split, joinWords_cons_cons]
  rfl

theorem deniedWords_areWords :
    ∀ word ∈ deniedWords leaf, word ≠ [] ∧ ∀ c ∈ word, isSpace c = false :=
  fun _ inside => mem_words (mem_of_mem_tail inside)

theorem negatedStill_eq_nil_iff (negated : isNegated leaf) {held : List Key} :
    negatedStill held leaf.chain (strip leaf.line) = [] ↔
      readKey leaf.chain (strip leaf.line) ∈ held ∨
        ∀ got ∈ held, standsUnder (sectionKey leaf.chain) (joinWords (deniedWords leaf)) got = none := by
  have visible : ∀ got text, standsUnder (sectionKey leaf.chain) (joinWords (deniedWords leaf)) got =
      some text → text ≠ [] := by
    intro got text stands empty
    subst empty
    have beginning : begins (joinWords (deniedWords leaf)) [] := by
      unfold standsUnder at stands
      split_ifs at stands with inSection below
      · rw [← Option.some.inj stands]
        exact inSection.2
      · exact (Option.filter_eq_some_iff.mp stands).2
    have isPrefix := words_of_begins deniedWords_areWords beginning
    exact (lineWords_of_isNegated negated).2 (prefix_nil.mp isPrefix)
  have section_ : (readKey leaf.chain (strip leaf.line)).1 = sectionKey leaf.chain := rfl
  unfold negatedStill
  simp only [positive_eq negated, section_, contains_eq_mem, decide_eq_true_eq]
  split_ifs with inHeld
  · simp [inHeld]
  · simp only [inHeld, false_or]
    cases found : held.findSome?
        (standsUnder (sectionKey leaf.chain) (joinWords (deniedWords leaf))) with
    | none =>
      rw [List.findSome?_eq_none_iff] at found
      simpa using found
    | some text =>
      obtain ⟨got, member, stands⟩ := exists_of_findSome?_eq_some found
      simp only [Option.getD_some]
      constructor
      · intro empty
        exact absurd empty (visible got text stands)
      · intro nothing
        rw [nothing got member] at stands
        cases stands

end Negation

/-! ### Lines -/

section Lines

variable {running : Str} {device : Running} (read : readRunning running = .ok device)

include read

private theorem held_iff {leaf : Leaf} :
    device.held.contains (readKey leaf.chain leaf.line) ↔
      ∃ printed ∈ configLeaves running, ReadsAs printed leaf := by
  simp only [contains_iff_mem, mem_held read, readsAs_iff]

private theorem stanza_holds_iff {entry : LineRange × List Key} (member : entry ∈ device.stanzas)
    {leaf : Leaf} : entry.2.contains (readKey leaf.chain.tail leaf.line) ↔
      ∃ printed ∈ configLeaves running, ReadsIn entry.1 printed leaf := by
  simp only [contains_iff_mem, (mem_stanzas read member).2, readsIn_iff]

private theorem covering_holds_iff {kind : Str} {member : Nat} {leaf : Leaf} :
    (device.stanzas.filter (fun stanza =>
        stanza.1.kind == kind && stanza.1.first ≤ member && member ≤ stanza.1.last)).any
      (fun stanza => stanza.2.contains (readKey leaf.chain.tail leaf.line)) = true ↔
        HeldOn running kind member leaf := by
  rw [any_eq_true]
  constructor
  · rintro ⟨entry, inFilter, holds⟩
    obtain ⟨inside, covers⟩ := mem_filter.mp inFilter
    obtain ⟨⟨stanza, printed, same⟩, _⟩ := mem_stanzas read inside
    refine ⟨stanza, printed, ?_, ?_⟩
    · rw [LineStanza.has, same]
      exact covers
    · rw [same]
      exact (stanza_holds_iff read inside).mp holds
  · rintro ⟨stanza, printed, covers, holds⟩
    obtain ⟨entry, inside, same⟩ := stanza_indexed read printed
    refine ⟨entry, mem_filter.mpr ⟨inside, ?_⟩, ?_⟩
    · rw [same]
      exact covers
    · refine (stanza_holds_iff read inside).mpr ?_
      rw [same]
      exact holds

/-- **Nothing keeps a line from reading back** exactly when the configuration
holds it, and holds it in its own range's stanzas where it prints that range. -/
theorem problems_eq_nil_iff {leaf : Leaf} :
    problems device leaf.chain leaf.line = [] ↔ Held running leaf ∧ HeldWhereSent running leaf := by
  unfold problems Held HeldWhereSent
  cases ranges : rangeOf leaf.chain with
  | none =>
    simp only [reduceCtorEq, false_implies, implies_true, and_true]
    split_ifs with holds
    · exact iff_of_true rfl ((held_iff read).mp holds)
    · exact iff_of_false (by simp) fun found => holds ((held_iff read).mpr found)
  | some range =>
    simp only [Option.some.injEq, forall_eq']
    cases found : device.stanzas.find? (fun stanza => stanza.1 == range) with
    | some entry =>
      have inside := mem_of_find?_eq_some found
      obtain rfl : entry.1 = range := by simpa using List.find?_some found
      obtain ⟨stanza, printed, same⟩ := (mem_stanzas read inside).1
      simp only
      split_ifs with contained
      · have holds := (stanza_holds_iff read inside).mp contained
        refine iff_of_true rfl ⟨fun member above below => ⟨stanza, printed, ?_, ?_⟩, fun _ => holds⟩
        · simp [LineStanza.has, same, above, below]
        · rw [same]
          exact holds
      · refine iff_of_false (by simp) fun both => contained ?_
        exact (stanza_holds_iff read inside).mpr (both.2 ⟨stanza, printed, same⟩)
    | none =>
      have unprinted : ¬ ∃ stanza ∈ preLineStanzas running, stanza.range = range := by
        rintro ⟨stanza, printed, rfl⟩
        obtain ⟨entry, inside, same⟩ := stanza_indexed read printed
        have differs := List.find?_eq_none.mp found entry inside
        exact differs (by simp [same])
      have members : ∀ member, member ∈ range.numbers ↔
          range.first ≤ member ∧ member ≤ range.last := by
        intro member
        rw [LineRange.numbers, mem_range'_1]
        omega
      simp only [unprinted, false_implies, and_true, append_eq_nil_iff, ite_eq_left_iff,
        cons_ne_self, imp_false, not_not, filter_eq_nil_iff, members]
      constructor
      · rintro ⟨noneLack, allCovered⟩ member above below
        refine (covering_holds_iff read).mp ?_
        have covered := allCovered member ⟨above, below⟩
        have holding := noneLack member ⟨above, below⟩
        rw [Bool.and_eq_true, not_and, bne_iff_ne, ne_eq, ← beq_iff_eq] at holding
        exact Bool.of_not_eq_false fun noneHolds => holding covered (by rw [noneHolds]; rfl)
      · intro held
        have holds := fun member (bounds : range.first ≤ member ∧ member ≤ range.last) =>
          (covering_holds_iff read).mpr (held member bounds.1 bounds.2)
        refine ⟨fun member bounds => ?_, fun member bounds nothing => ?_⟩
        · rw [holds member bounds]
          simp
        · have someHolds := holds member bounds
          rw [beq_iff_eq.mp nothing] at someHolds
          cases someHolds

end Lines

/-! ### A program -/

section Program

variable {redactPositional : Str → Str} {vlans : VlanId → Option Str} {device : Running}

theorem missing_eq_nil_iff {leaves : List Leaf} :
    (readLeaves redactPositional vlans device leaves).missing = [] ↔
      ∀ leaf ∈ leaves, ∀ missing, judge redactPositional vlans device leaf = .checked missing →
        missing = none := by
  unfold readLeaves
  induction leaves using List.reverseRecOn with
  | nil => simp
  | append_singleton before leaf ih =>
    rw [foldl_append, foldl_cons, foldl_nil]
    simp only [mem_append, mem_singleton, or_imp, forall_and, forall_eq, ← ih]
    cases judged : judge redactPositional vlans device leaf with
    | unread entry | skipped entry | checked missing => simp [Report.add]

variable {running : Str} {leaf : Leaf} (read : readRunning running = .ok device)

include read

theorem absent_of_judgeNegated (negated : isNegated leaf)
    (judged : judgeNegated device leaf = .checked none) : Absent running leaf := by
  unfold judgeNegated at judged
  split_ifs at judged with inRange inVlan
  simp only [Judged.checked.injEq, ite_eq_left_iff, reduceCtorEq, imp_false, not_not] at judged
  rcases (negatedStill_eq_nil_iff negated).mp judged with prints | nothing
  · obtain ⟨printed, member, same⟩ := (mem_held read).mp prints
    exact .inl ⟨printed, member, readsAs_iff.mpr same⟩
  · refine .inr fun printed member inSection isPrefix => ?_
    have inHeld := (mem_held read).mpr ⟨printed, member, rfl⟩
    have stays : standsUnder (sectionKey leaf.chain) (joinWords (deniedWords leaf))
        (readKey printed.chain printed.line) = some (joinWords (lineWords printed.line)) := by
      rw [standsUnder, if_pos ⟨inSection, begins_joinWords (lineWords_of_isNegated negated).2 isPrefix⟩]
      rfl
    rw [nothing _ inHeld] at stays
    cases stays

theorem held_of_judgeLine (judged : judgeLine redactPositional device leaf = .checked none) :
    Held running leaf := by
  have nothing : problems device leaf.chain leaf.line = [] := by
    unfold judgeLine at judged
    cases reason : PlatformDefaults.hidden leaf.chain (strip leaf.line) with
    | none =>
      simp only [reason] at judged
      split_ifs at judged with secret banner holds
      · exact holds
      · cases judged
    | some because =>
      simp only [reason] at judged
      split_ifs at judged with secret banner problem
      exact not_not.mp problem
  exact ((problems_eq_nil_iff read).mp nothing).1

end Program

/-- **A read-back that misses nothing is right.** Every line of the program that
was checked, and that neither a VLAN's table nor an account's stored form
judges, is held under its section; every `no` line that was checked is absent
from its section. -/
theorem read_back_right {redactPositional : Str → Str} {vlans : VlanId → Option Str}
    {commands : List Str} {running : Str} {report : Report}
    (answered : readBack redactPositional vlans commands running = .ok report)
    (nothing : report.missing = []) :
    ∀ leaf ∈ programLeaves commands, Checked redactPositional vlans running leaf →
      (isNegated leaf = false → vlanJudged leaf = none → accountOf leaf = none →
        Held running leaf) ∧
      (isNegated leaf = true → Absent running leaf) := by
  rintro leaf member ⟨device, missing, read, judged⟩
  rw [readBack, read] at answered
  obtain rfl : readLeaves redactPositional vlans device (programLeaves commands) = report :=
    Except.ok.inj answered
  obtain rfl := missing_eq_nil_iff.mp nothing leaf member missing judged
  unfold judge at judged
  refine ⟨fun positive noVlan noAccount => ?_, fun negated => ?_⟩
  · simp only [noVlan, positive, noAccount, Bool.false_eq_true, if_false] at judged
    exact held_of_judgeLine read judged
  · have noVlan : vlanJudged leaf = none := by
      refine vlanJudged_of_no ?_
      obtain ⟨body, split⟩ := List.isPrefixOf_iff_prefix.mp negated
      have spaced : strip leaf.line = "no".ascii ++ ' ' :: body := split.symm
      rw [spaced, words_cons (by decide) (by decide) (by decide)]
      rfl
    simp only [noVlan, negated, if_true] at judged
    exact absent_of_judgeNegated read negated judged

omit [Unicode] in
/-- A line under a range the device prints as two, and a line taken back. -/
theorem split_range_right :
    letI : Unicode := basicLatin
    Held "line vty 0 1\n login local\nline vty 2 4\n login local".ascii
        ⟨" login local".ascii, ["line vty 0 4".ascii]⟩ ∧
      Absent "line vty 0 1\n login local\nline vty 2 4\n login local".ascii
        ⟨"no logging host 192.0.2.1".ascii, []⟩ := by
  letI : Unicode := basicLatin
  have answered : readBack id (fun _ => none)
      (["line vty 0 4", " login local", "exit", "no logging host 192.0.2.1"].map String.ascii)
      "line vty 0 1\n login local\nline vty 2 4\n login local".ascii = .ok ⟨[], [], 2, []⟩ := by
    decide
  have right := read_back_right answered rfl
  have read : readRunning "line vty 0 1\n login local\nline vty 2 4\n login local".ascii = .ok
      { text := "line vty 0 1\n login local\nline vty 2 4\n login local".ascii
        held := [(["line vty 0 1".ascii], "login local".ascii),
          (["line vty 2 4".ascii], "login local".ascii)]
        stanzas := [(⟨"vty".ascii, 0, 1⟩, [([], "login local".ascii)]),
          (⟨"vty".ascii, 2, 4⟩, [([], "login local".ascii)])] } := by
    decide
  exact ⟨(right _ (by decide) ⟨_, none, read, by decide⟩).1 (by decide)
      (by decide) (by decide),
    (right _ (by decide) ⟨_, none, read, by decide⟩).2 (by decide)⟩

omit [Unicode] in
/-- A location whose words stand further apart than the device has them reads
back, and the configuration does not have it as it was sent. -/
theorem respaced_held :
    letI : Unicode := basicLatin
    readBack id (fun _ => none) ["snmp-server location floor  2".ascii]
        "snmp-server location floor 2".ascii = .ok ⟨[], [], 1, []⟩ ∧
      programLeaves ["snmp-server location floor  2".ascii] =
        [⟨"snmp-server location floor  2".ascii, []⟩] ∧
      ¬ ∃ printed ∈ configLeaves "snmp-server location floor 2".ascii,
        printed = ⟨"snmp-server location floor  2".ascii, []⟩ := by
  decide

end Nmas.Nsot.ReadBack
