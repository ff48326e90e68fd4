import Nmas.Nsot.Diff.Classify

/-!
Owns: when the deploy preview tells the truth. `preview_is_sent_iff` compares
the target leaves shown as added or replaced with the lines `merge_diff` sends;
`device_lines_named_once_iff` asks whether every line only the device holds is
accounted for.

Neither holds for every pair of configurations. The preview compares leaves
with leaves, the program compares lines with lines, and pairing by setting key
is not one to one. Both results state exactly where the difference shows.
-/

namespace Nmas.Nsot

open Nmas.Text
open Nmas.Nsot.IfNames

section Preview

variable [Unicode] (target running : Str)

/-- A target leaf the preview lists under `add` or `replace`. -/
def previewed (leaf : Leaf) : Bool :=
  match judgeTarget running leaf with
  | .add | .replace _ => true
  | .verbatim | .heldDefault => false

/-- A target leaf that no device leaf of its section sets otherwise and that the
device holds, if at all, at a default it does not print. -/
def AtHiddenDefault (leaf : Leaf) : Prop :=
  counterpart (configLeaves running) leaf.chain leaf.line = none ∧
    (PlatformDefaults.hidden leaf.chain leaf.line).isSome

/-- How often the preview names a leaf of the device: as residue, as sharing a
key, or as the old value of a replacement in its section. -/
def timesNamed (leaf : Leaf) : Nat :=
  (if judgeDevice target running leaf = .residue then 1 else 0) +
    (match judgeDevice target running leaf with
      | .sharesKey _ => 1
      | _ => 0) +
    ((configLeaves target).filter (fun mate =>
      mate.chain = leaf.chain && judgeTarget running mate = .replace leaf.line)).length

/-- The target leaves new to the device whose counterpart is a given leaf. -/
def newMates (leaf : Leaf) : List Leaf :=
  (configLeaves target).filter (fun mate =>
    !(configLeaves running).contains mate && mate.chain = leaf.chain &&
      counterpart (configLeaves running) mate.chain mate.line = some leaf.line)

/-- The target line that sets the same thing as a device leaf is new to the
device. -/
def hasNewCounterpart (leaf : Leaf) : Bool :=
  (counterpart (configLeaves target) leaf.chain leaf.line).any
    (fun mate => !(configLeaves running).contains ⟨mate, leaf.chain⟩)

end Preview

section Sent

variable [Unicode] {target running : Str} {leaf : Leaf}

theorem visible_of_mem_configKeys {config : Str} {key : Key} (member : key ∈ configKeys config) :
    isSectionSeparator key.2 = false :=
  (isSectionLine_of_mem (mem_configKeys.mp member)).visible

theorem mem_toAddKeyed {key : Key} :
    key ∈ toAddKeyed target running ↔
      key ∈ configKeys target ∧ key ∉ configKeys running ∧
        key ∉ (classifyDiff target running).heldDefaults := by
  unfold toAddKeyed
  simp only [List.mem_filter, Bool.and_eq_true, Bool.not_eq_true', List.contains_eq_mem,
    decide_eq_false_iff_not]
  constructor
  · rintro ⟨member, ⟨_, absent⟩, notDefault⟩
    exact ⟨member, absent, notDefault⟩
  · rintro ⟨member, absent, notDefault⟩
    exact ⟨member, ⟨visible_of_mem_configKeys member, absent⟩, notDefault⟩

theorem key_mem_heldDefaults (member : leaf ∈ configLeaves target) :
    leaf.key ∈ (classifyDiff target running).heldDefaults ↔
      judgeTarget running leaf = .heldDefault := by
  rw [mem_heldDefaults]
  constructor
  · rintro ⟨⟨otherLine, otherChain⟩, _, verdict, sameKey⟩
    obtain ⟨line, chain⟩ := leaf
    simp only [Leaf.key, Prod.mk.injEq] at sameKey
    obtain ⟨rfl, rfl⟩ := sameKey
    exact verdict
  · intro verdict
    exact ⟨leaf, member, verdict, rfl⟩

theorem previewed_iff_sent (member : leaf ∈ configLeaves target) :
    (previewed running leaf ↔ leaf.key ∈ toAddKeyed target running) ↔
      (leaf.chain ++ [leaf.line] ∈ configHeaders running → AtHiddenDefault running leaf) := by
  rw [mem_toAddKeyed, key_mem_heldDefaults member, mem_configHeaders_iff]
  have isKey : leaf.key ∈ configKeys target := key_mem_of_mem_configLeaves member
  by_cases heldLeaf : leaf ∈ configLeaves running
  · -- Both sides of the comparison hold the line as a leaf.
    have verdict : judgeTarget running leaf = .verbatim := by
      rw [judgeTarget_eq member, if_pos heldLeaf]
    have heldKey : leaf.key ∈ configKeys running := key_mem_of_mem_configLeaves heldLeaf
    simp [previewed, verdict, heldKey, heldLeaf]
  · by_cases heldKey : leaf.key ∈ configKeys running
    · -- The device holds the line as a header, so its section is held too.
      have verdict : judgeTarget running leaf = _ := judgeTarget_eq member
      rw [if_neg heldLeaf] at verdict
      cases found : counterpart (configLeaves running) leaf.chain leaf.line with
      | some current =>
        simp only [found] at verdict
        simp [previewed, verdict, heldKey, heldLeaf, AtHiddenDefault, found]
      | none =>
        simp only [found] at verdict
        by_cases isHidden : (PlatformDefaults.hidden leaf.chain leaf.line).isSome
        · have nested : leaf.key.1 ≠ [] := by
            intro topLevel
            rw [show leaf.chain = [] from topLevel] at isHidden
            cases isHidden
          have inHeldSection : leaf.chain ∈ heldSections running :=
            mem_heldSections_of_key heldKey nested
          rw [if_pos ⟨inHeldSection, isHidden⟩] at verdict
          simp [previewed, verdict, heldKey, heldLeaf, AtHiddenDefault, found, isHidden]
        · rw [if_neg (fun both => isHidden both.2)] at verdict
          simp [previewed, verdict, heldKey, heldLeaf, AtHiddenDefault, isHidden]
    · -- The device does not hold the line at all.
      have notVerbatim : judgeTarget running leaf ≠ .verbatim := by
        rw [judgeTarget_eq member, if_neg heldLeaf]
        cases counterpart (configLeaves running) leaf.chain leaf.line with
        | some current => simp
        | none => simp only; split <;> simp
      unfold previewed
      cases verdict : judgeTarget running leaf with
      | verbatim => exact absurd verdict notVerbatim
      | heldDefault => simp [heldKey]
      | add | replace old => simp [heldKey, isKey]

/-- **The preview and the program are one answer** exactly when no target leaf
is a section header of the device, hidden defaults apart. -/
theorem preview_is_sent_iff (target running : Str) :
    (∀ leaf ∈ configLeaves target,
        (previewed running leaf = true ↔ leaf.key ∈ (mergeDiff target running).toAddKeyed)) ↔
      ∀ leaf ∈ configLeaves target, leaf.chain ++ [leaf.line] ∈ configHeaders running →
        AtHiddenDefault running leaf :=
  forall₂_congr fun _ member => previewed_iff_sent member

end Sent

/-- A bare `interface Loopback0` that the device configures is shown as added
and never sent. -/
theorem bare_header_previewed_not_sent :
    letI : Unicode := basicLatin
    ¬ ∀ leaf ∈ configLeaves "interface Loopback0".ascii,
      (previewed "interface Loopback0\n description uplink".ascii leaf = true ↔
        leaf.key ∈ (mergeDiff "interface Loopback0".ascii
          "interface Loopback0\n description uplink".ascii).toAddKeyed) := by
  decide +kernel

section Named

variable [Unicode] {target running : Str} {leaf : Leaf}

theorem judgeTarget_eq_replace_iff (member : leaf ∈ configLeaves target) {old : Str} :
    judgeTarget running leaf = .replace old ↔
      leaf ∉ configLeaves running ∧
        counterpart (configLeaves running) leaf.chain leaf.line = some old := by
  rw [judgeTarget_eq member]
  by_cases heldLeaf : leaf ∈ configLeaves running
  · simp [heldLeaf]
  · rw [if_neg heldLeaf]
    cases counterpart (configLeaves running) leaf.chain leaf.line with
    | some current => simp [heldLeaf]
    | none => simp only; split <;> simp

theorem replacements_eq_newMates (leaf : Leaf) :
    (configLeaves target).filter (fun mate =>
      mate.chain = leaf.chain && judgeTarget running mate = .replace leaf.line) =
        newMates target running leaf := by
  refine List.filter_congr fun mate member => ?_
  rw [Bool.eq_iff_iff]
  simp only [Bool.and_eq_true, decide_eq_true_eq, judgeTarget_eq_replace_iff member,
    List.contains_eq_mem, Bool.not_eq_true', decide_eq_false_iff_not]
  tauto

theorem timesNamed_eq (member : leaf ∈ configLeaves running) (absent : leaf ∉ configLeaves target) :
    timesNamed target running leaf =
      (if hasNewCounterpart target running leaf then 0 else 1) +
        (newMates target running leaf).length := by
  unfold timesNamed hasNewCounterpart
  rw [replacements_eq_newMates, judgeDevice_eq member, if_neg absent]
  cases counterpart (configLeaves target) leaf.chain leaf.line with
  | none => simp
  | some mate =>
    by_cases heldMate : (⟨mate, leaf.chain⟩ : Leaf) ∈ configLeaves running <;> simp [heldMate]

/-- **No device-only line is hidden or repeated** exactly when the pairing is
one to one: a leaf whose counterpart is a new target line is in turn the
counterpart of just one new line, and any other leaf of none. -/
theorem device_lines_named_once_iff (target running : Str) :
    (∀ leaf ∈ configLeaves running, leaf ∉ configLeaves target →
        timesNamed target running leaf = 1) ↔
      ∀ leaf ∈ configLeaves running, leaf ∉ configLeaves target →
        (newMates target running leaf).length =
          if hasNewCounterpart target running leaf then 1 else 0 := by
  refine forall₂_congr fun leaf member => forall_congr' fun absent => ?_
  rw [timesNamed_eq member absent]
  split <;> omega

end Named

/-- Of two `ntp server` lines facing one new server, the second is named
nowhere. -/
theorem second_server_named_nowhere :
    letI : Unicode := basicLatin
    ¬ ∀ leaf ∈ configLeaves "ntp server 192.0.2.1\nntp server 192.0.2.2".ascii,
      leaf ∉ configLeaves "ntp server 192.0.2.3".ascii →
        timesNamed "ntp server 192.0.2.3".ascii
          "ntp server 192.0.2.1\nntp server 192.0.2.2".ascii leaf = 1 := by
  decide +kernel

end Nmas.Nsot
