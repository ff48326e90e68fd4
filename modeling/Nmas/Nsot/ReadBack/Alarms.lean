import Mathlib.Data.List.Forall2
import Nmas.Nsot.Merge
import Nmas.Nsot.ReadBack.Right

/-!
Owns: what a read-back raises. It answers exactly when each terminal line's
section is printed as a stanza, its report counts each line of the program once
(`Counted`), and it misses nothing of a program whose lines all read back
(`Reads`).

Does not own: a line sent bare that the device prints with other lines under it.
The index is made of leaves, so such a line is missing, and nothing is said of
it here.
-/

namespace Nmas.Nsot.ReadBack

open Nmas.Text List
open Nmas.Nsot.IfNames
open Nmas.Nsot.Rollback

/-! ### Every line is counted once -/

/-- A report counts each line of a program once: it splits them into the checked,
the skipped and the unread, and shows the last two, a secret masked. -/
def Counted (redactPositional : Str → Str) (report : Report) (leaves : List Leaf) : Prop :=
  ∃ checked skipped unread : List Leaf, (checked ++ skipped ++ unread).Perm leaves ∧
    report.checked = checked.length ∧
    List.Forall₂ (fun entry leaf => entry.line = shown leaf ∨
      entry.line = redactPositional (shown leaf)) report.skipped skipped ∧
    List.Forall₂ (fun entry leaf => entry.line = shown leaf) report.unread unread

variable [Unicode]

/-! ### What reads back -/

/-- A configuration shows the absence a `no` line claims: it prints the `no`
form itself, or no line of the section, a stanza's header included, starts with
the words taken back. -/
def Gone (running : Str) (leaf : Leaf) : Prop :=
  (∃ printed ∈ configLeaves running, ReadsAs printed ⟨strip leaf.line, leaf.chain⟩) ∨
    ∀ line chain, (line, chain) ∈ sectionChains running → sectionKey chain = sectionKey leaf.chain →
      ¬ deniedWords leaf <+: lineWords line

/-- A device shows what a line of a program asked of it. -/
def Reads (vlans : VlanId → Option Str) (running : Str) (leaf : Leaf) : Prop :=
  match vlanJudged leaf with
  | some vlan => (vlanRead vlans vlan).shows leaf = true
  | none =>
    if isNegated leaf then Gone running leaf
    else
      match accountOf leaf with
      | some account =>
        ∃ got, printedAccount account.name running = some got ∧ got.stores account = true
      | none => Held running leaf ∧ HeldWhereSent running leaf

/-! ### The report -/

/-- An entry names the line it was made of, whole or with its secret masked. -/
def Judged.Names (redactPositional : Str → Str) (leaf : Leaf) : Judged → Prop
  | .unread entry => entry.line = shown leaf
  | .skipped entry => entry.line = shown leaf ∨ entry.line = redactPositional (shown leaf)
  | .checked _ => True

section Report

variable {redactPositional : Str → Str} {vlans : VlanId → Option Str} {device : Running}

theorem judge_names (leaf : Leaf) :
    (judge redactPositional vlans device leaf).Names redactPositional leaf := by
  unfold judge
  split
  · unfold judgeVlan
    split
    · rfl
    · trivial
    · split_ifs <;> trivial
  · split_ifs
    · unfold judgeNegated
      split_ifs
      · exact .inl rfl
      · exact .inl rfl
      · trivial
    · split
      · trivial
      · unfold judgeLine
        simp only
        split_ifs
        · exact .inr rfl
        · exact .inl rfl
        all_goals
          split
          · first | trivial | exact .inl rfl
          · trivial

omit [Unicode] in
private theorem Counted.add {report : Report} {leaves : List Leaf} {leaf : Leaf} {judged : Judged}
    (counted : Counted redactPositional report leaves) (names : judged.Names redactPositional leaf) :
    Counted redactPositional (report.add judged) (leaves ++ [leaf]) := by
  obtain ⟨checked, skipped, unread, perm, number, skips, reads⟩ := counted
  have longer := perm.append_right [leaf]
  cases judged with
  | unread entry =>
    refine ⟨checked, skipped, unread ++ [leaf], ?_, number, skips,
      rel_append reads (.cons names .nil)⟩
    rwa [← append_assoc]
  | skipped entry =>
    refine ⟨checked, skipped ++ [leaf], unread, ?_, number,
      rel_append skips (.cons names .nil), reads⟩
    refine List.Perm.trans ?_ longer
    simp only [append_assoc, perm_append_left_iff]
    exact perm_append_comm
  | checked missing =>
    refine ⟨checked ++ [leaf], skipped, unread, ?_, by simp [Report.add, number], skips, reads⟩
    refine List.Perm.trans ?_ longer
    simp only [append_assoc, perm_append_left_iff]
    exact perm_append_comm.trans (by simp)

theorem readLeaves_counted (leaves : List Leaf) :
    Counted redactPositional (readLeaves redactPositional vlans device leaves) leaves := by
  unfold readLeaves
  induction leaves using List.reverseRecOn with
  | nil => exact ⟨[], [], [], by simp, rfl, .nil, .nil⟩
  | append_singleton before leaf ih =>
    rw [foldl_append, foldl_cons, foldl_nil]
    exact ih.add (judge_names leaf)

/-! ### Lines that read back are not missing -/

variable {running : Str} {leaf : Leaf}

omit [Unicode] in
theorem judgeVlan_reads {vlan : VlanId} (shows : (vlanRead vlans vlan).shows leaf = true)
    {missing : Option (Entry Miss)} (judged : judgeVlan vlans vlan leaf = .checked missing) :
    missing = none := by
  unfold judgeVlan at judged
  split at judged
  · cases judged
  · rename_i absent
    rw [absent] at shows
    cases shows
  · rename_i present
    rw [present] at shows
    split_ifs at judged with renamed
    · simp [VlanRead.shows, renamed.1, renamed.2] at shows
    · cases judged
      rfl

private theorem header_below {own chain : List Str} {header : Str} (below : own <+: sectionKey chain)
    (isHead : ((sectionKey chain).drop own.length).head? = some header) :
    ∃ above line, above ++ [line] <+: chain ∧ sectionKey above = own ∧
      strip (canonicaliseLine line) = header := by
  obtain ⟨back, split⟩ := below
  rw [← split, drop_left] at isHead
  obtain ⟨more, rfl⟩ := List.head?_eq_some_iff.mp isHead
  obtain ⟨above, under, rfl, sameAbove, sameUnder⟩ := map_eq_append_iff.mp split.symm
  obtain ⟨line, later, rfl, sameLine, _⟩ := map_eq_cons_iff.mp sameUnder
  exact ⟨above, line, ⟨later, by simp⟩, sameAbove, sameLine⟩

variable (read : readRunning running = .ok device)

include read

theorem judgeNegated_reads (negated : isNegated leaf) (gone : Gone running leaf)
    {missing : Option (Entry Miss)} (judged : judgeNegated device leaf = .checked missing) :
    missing = none := by
  unfold judgeNegated at judged
  split_ifs at judged with inRange inVlan
  have nothing : negatedStill device.held leaf.chain (strip leaf.line) = [] := by
    rw [negatedStill_eq_nil_iff negated]
    rcases gone with ⟨printed, member, reads⟩ | noLine
    · exact .inl ((mem_held read).mpr ⟨printed, member, readsAs_iff.mp reads⟩)
    · refine .inr fun got inHeld => ?_
      obtain ⟨printed, member, rfl⟩ := (mem_held read).mp inHeld
      have entry := (mem_configLeaves.mp member).1
      unfold standsUnder
      rw [if_neg]
      · split_ifs with below
        · rw [Option.filter_eq_none_iff]
          intro header isHead beginning
          obtain ⟨above, line, isPrefix, inSection, rfl⟩ :=
            header_below (List.isPrefixOf_iff_prefix.mp below) isHead
          refine noLine _ _ (ancestor_mem_sectionChains entry isPrefix) inSection ?_
          have begun := words_of_begins deniedWords_areWords beginning
          rwa [words_strip] at begun
        · rfl
      · rintro ⟨inSection, beginning⟩
        have isPrefix := words_of_begins deniedWords_areWords beginning
        refine noLine _ _ entry inSection ?_
        simpa [readKey, lineWords] using isPrefix
  simp only [Judged.checked.injEq, nothing, if_true] at judged
  exact judged.symm

theorem judgeLine_reads (held : Held running leaf) (whereSent : HeldWhereSent running leaf)
    {missing : Option (Entry Miss)}
    (judged : judgeLine redactPositional device leaf = .checked missing) : missing = none := by
  have nothing := (problems_eq_nil_iff read).mpr ⟨held, whereSent⟩
  unfold judgeLine at judged
  simp only [nothing, ne_eq, not_true, if_false, if_true] at judged
  split_ifs at judged
  split at judged <;> (cases judged; rfl)

theorem judge_reads (reads : Reads vlans running leaf) {missing : Option (Entry Miss)}
    (judged : judge redactPositional vlans device leaf = .checked missing) : missing = none := by
  unfold judge at judged
  unfold Reads at reads
  cases ofVlan : vlanJudged leaf with
  | some vlan =>
    simp only [ofVlan] at judged reads
    exact judgeVlan_reads reads judged
  | none =>
    simp only [ofVlan] at judged reads
    split_ifs at judged reads with negated
    · exact judgeNegated_reads read negated reads judged
    · cases account : accountOf leaf with
      | some wanted =>
        simp only [account] at judged reads
        rw [text_eq read, accountHeld_eq_none_iff.mpr reads] at judged
        cases judged
        rfl
      | none =>
        simp only [account] at judged reads
        exact judgeLine_reads read reads.1 reads.2 judged

end Report

/-- **The read-back answers, counts and raises no false alarm.** It answers
exactly when each terminal line's section is printed as a stanza. Its report
counts each line of the program once, and misses nothing when the device shows
what each line asked of it. -/
theorem no_false_alarm (redactPositional : Str → Str) (vlans : VlanId → Option Str)
    (commands : List Str) (running : Str) :
    ((∃ report, readBack redactPositional vlans commands running = .ok report) ↔
      ∀ leaf ∈ configLeaves running, ∀ range, rangeOf leaf.chain = some range →
        ∃ stanza ∈ preLineStanzas running, stanza.range = range) ∧
    ∀ report, readBack redactPositional vlans commands running = .ok report →
      Counted redactPositional report (programLeaves commands) ∧
      ((∀ leaf ∈ programLeaves commands, Reads vlans running leaf) → report.missing = []) := by
  constructor
  · rw [← readRunning_ok_iff]
    unfold readBack
    cases readRunning running with
    | error range =>
      refine iff_of_false ?_ ?_
      · rintro ⟨report, answered⟩
        cases answered
      · rintro ⟨device, read⟩
        cases read
    | ok device => exact iff_of_true ⟨_, rfl⟩ ⟨device, rfl⟩
  · intro report answered
    unfold readBack at answered
    cases read : readRunning running with
    | error range =>
      rw [read] at answered
      cases answered
    | ok device =>
      rw [read] at answered
      obtain rfl : readLeaves redactPositional vlans device (programLeaves commands) = report :=
        Except.ok.inj answered
      refine ⟨readLeaves_counted _, fun reads => missing_eq_nil_iff.mpr ?_⟩
      intro leaf member missing judged
      exact judge_reads read (reads leaf member) judged

omit [Unicode] in
/-- A device that printed an account as it was sent would not pass: no device
stores a clear secret. A configuration that starts inside a terminal line's
section is not answered at all. -/
theorem sent_account_missing :
    letI : Unicode := basicLatin
    mergeCommands "username ops secret 0 changeme".ascii [] =
        .ok ["username ops secret 0 changeme".ascii] ∧
      (∀ leaf ∈ programLeaves ["username ops secret 0 changeme".ascii],
        leaf ∈ configLeaves "username ops secret 0 changeme".ascii) ∧
      readBack (fun _ => "username ops secret 0 <redacted:user_password>".ascii) (fun _ => none)
          ["username ops secret 0 changeme".ascii] "username ops secret 0 changeme".ascii =
        .ok ⟨[⟨"username ops secret 0 <redacted:user_password>".ascii,
          .account (.form .secret (some "0".ascii) .secret)⟩], [], 1, []⟩ ∧
      readBack (fun line => line) (fun _ => none) ["hostname r1".ascii]
        " line vty 0 4\n  login local".ascii = .error ⟨"vty".ascii, 0, 4⟩ := by
  decide +kernel

end Nmas.Nsot.ReadBack
