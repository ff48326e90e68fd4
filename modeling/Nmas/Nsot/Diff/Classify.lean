import Nmas.Nsot.SettingKeys
import Nmas.Nsot.PlatformDefaults

/-!
Owns: `deploy.classify_diff` and `deploy.merge_diff`. The first splits a diff
into add, replace, residue and shares_key for a person to read; the second adds
the lines to send.

Each loop body is a verdict on one leaf. The lists of the result collect the
verdicts in the order of the leaves.
-/

namespace Nmas.Nsot

open Nmas.Text List
open Nmas.Nsot.IfNames

variable [Unicode]

/-- A leaf in canonical spelling: what `_index` reads. -/
def Leaf.canonical (leaf : Leaf) : Leaf :=
  ⟨canonicaliseLine leaf.line, leaf.chain.map canonicaliseLine⟩

def leafIndex (config : Str) : List Leaf := (configLeaves config).map Leaf.canonical

/-- `held_sections`: every section a configuration holds, as a path. -/
def heldSections (config : Str) : List (List Str) :=
  (sectionChains config).flatMap (fun entry =>
    (entry.2.map canonicaliseLine ++ [canonicaliseLine entry.1]).inits.tail)

/-- What `classify_diff` makes of one target leaf. -/
inductive TargetVerdict where
  /-- The device holds the line. -/
  | verbatim
  /-- The device holds it at a default it does not print. -/
  | heldDefault
  | add
  | replace (old : Str)
deriving DecidableEq

/-- What `classify_diff` makes of one leaf of the device. -/
inductive DeviceVerdict where
  /-- The target holds the line. -/
  | verbatim
  /-- A target line that is new to the device sets the same thing. -/
  | replaced (mate : Str)
  /-- A target line the device already holds sets the same thing. -/
  | sharesKey (mate : Str)
  | residue
deriving DecidableEq

section Judge

variable (target running : Str)

/-- The first loop's body. -/
def judgeTarget (leaf : Leaf) : TargetVerdict :=
  if leaf.canonical ∈ leafIndex running then .verbatim
  else
    match counterpart (leafIndex running) leaf.canonical.chain leaf.canonical.line with
    | some current => .replace current
    | none =>
      if leaf.canonical.chain ∈ heldSections running ∧
          (PlatformDefaults.hidden leaf.chain leaf.line).isSome then .heldDefault
      else .add

/-- The second loop's body. -/
def judgeDevice (leaf : Leaf) : DeviceVerdict :=
  if leaf.canonical ∈ leafIndex target then .verbatim
  else
    match counterpart (leafIndex target) leaf.canonical.chain leaf.canonical.line with
    | some mate =>
      if ⟨mate, leaf.canonical.chain⟩ ∈ leafIndex running then .sharesKey mate
      else .replaced mate
    | none => .residue

end Judge

/-- An entry of `replace`. -/
structure Replacement where
  line : Str
  old : Str
  new : Str
deriving DecidableEq

/-- An entry of `shares_key`. -/
structure SharedKey where
  line : Str
  mate : Str
  chain : List Str
deriving DecidableEq

/-- The result of `classify_diff`, with the `held_defaults` it fills. -/
structure Classification where
  add : List Str
  replace : List Replacement
  residue : List Str
  sharesKey : List SharedKey
  heldDefaults : List Key
deriving DecidableEq

def classifyDiff (target running : Str) : Classification where
  add := (configLeaves target).filterMap (fun leaf =>
    match judgeTarget running leaf with
    | .add => some leaf.line
    | _ => none)
  replace := (configLeaves target).filterMap (fun leaf =>
    match judgeTarget running leaf with
    | .replace old => some ⟨leaf.line, old, leaf.canonical.line⟩
    | _ => none)
  residue := (configLeaves running).filterMap (fun leaf =>
    match judgeDevice target running leaf with
    | .residue => some leaf.line
    | _ => none)
  sharesKey := (configLeaves running).filterMap (fun leaf =>
    match judgeDevice target running leaf with
    | .sharesKey mate => some ⟨leaf.line, mate, leaf.chain⟩
    | _ => none)
  heldDefaults := (configLeaves target).filterMap (fun leaf =>
    match judgeTarget running leaf with
    | .heldDefault => some leaf.key
    | _ => none)

/-- The result of `merge_diff`. -/
structure MergeDiff where
  toAdd : List Str
  toAddKeyed : List Key
  add : List Str
  replace : List Replacement
  removalWarnings : List Str
  residue : List Str
  sharesKey : List SharedKey
  unchangedCount : Int

/-- `to_add_keyed`: the intended lines the device lacks in their section and
does not hold at a hidden default. -/
def toAddKeyed (intended running : Str) : List Key :=
  (configKeys intended).filter (fun key =>
    !isSectionSeparator key.2 && !(configKeys running).contains key &&
      !(classifyDiff intended running).heldDefaults.contains key)

def mergeDiff (intended running : Str) : MergeDiff where
  toAdd := (toAddKeyed intended running).map Prod.snd
  toAddKeyed := toAddKeyed intended running
  add := (classifyDiff intended running).add
  replace := (classifyDiff intended running).replace
  removalWarnings := (classifyDiff intended running).residue
  residue := (classifyDiff intended running).residue
  sharesKey := (classifyDiff intended running).sharesKey
  unchangedCount :=
    ((configKeys intended).filter (fun key => !isSectionSeparator key.2)).length -
      ((toAddKeyed intended running).length : Int)

/-! ### Canonical spelling changes no leaf -/

section Leaves

variable {config : Str} {leaf : Leaf}

theorem canonical_of_mem_configLeaves (member : leaf ∈ configLeaves config) :
    leaf.canonical = leaf := by
  have entry := (mem_configLeaves.mp member).1
  unfold Leaf.canonical
  rw [(isSectionLine_of_mem entry).canonical, map_canonicaliseLine_chain entry]

@[simp] theorem leafIndex_eq (config : Str) : leafIndex config = configLeaves config := by
  calc leafIndex config = (configLeaves config).map id :=
        map_congr_left (fun leaf member => canonical_of_mem_configLeaves member)
    _ = configLeaves config := map_id _

theorem mem_heldSections_of_key {key : Key} (member : key ∈ configKeys config)
    (nested : key.1 ≠ []) : key.1 ∈ heldSections config := by
  have entry := mem_configKeys.mp member
  refine mem_flatMap.mpr ⟨_, entry, ?_⟩
  rw [map_canonicaliseLine_chain entry, (isSectionLine_of_mem entry).canonical]
  obtain ⟨first, rest, split⟩ := exists_cons_of_ne_nil nested
  simp only [split, cons_append, inits_cons, tail_cons, mem_map]
  exact ⟨rest, (mem_inits _ _).mpr (prefix_append _ _), rfl⟩

theorem key_mem_of_mem_configLeaves (member : leaf ∈ configLeaves config) :
    leaf.key ∈ configKeys config :=
  mem_configKeys.mpr (mem_configLeaves.mp member).1

end Leaves

/-! ### Verdicts on leaves -/

section Verdicts

variable {target running : Str} {leaf : Leaf}

theorem judgeTarget_eq (member : leaf ∈ configLeaves target) :
    judgeTarget running leaf =
      if leaf ∈ configLeaves running then .verbatim
      else
        match counterpart (configLeaves running) leaf.chain leaf.line with
        | some current => .replace current
        | none =>
          if leaf.chain ∈ heldSections running ∧
              (PlatformDefaults.hidden leaf.chain leaf.line).isSome then .heldDefault
          else .add := by
  unfold judgeTarget
  rw [canonical_of_mem_configLeaves member, leafIndex_eq]

theorem judgeDevice_eq (member : leaf ∈ configLeaves running) :
    judgeDevice target running leaf =
      if leaf ∈ configLeaves target then .verbatim
      else
        match counterpart (configLeaves target) leaf.chain leaf.line with
        | some mate =>
          if ⟨mate, leaf.chain⟩ ∈ configLeaves running then .sharesKey mate else .replaced mate
        | none => .residue := by
  unfold judgeDevice
  rw [canonical_of_mem_configLeaves member, leafIndex_eq, leafIndex_eq]

theorem mem_heldDefaults {key : Key} :
    key ∈ (classifyDiff target running).heldDefaults ↔
      ∃ leaf ∈ configLeaves target, judgeTarget running leaf = .heldDefault ∧ leaf.key = key := by
  simp only [classifyDiff, mem_filterMap]
  refine exists_congr fun leaf => and_congr_right fun _ => ?_
  cases judgeTarget running leaf <;> simp

end Verdicts

end Nmas.Nsot
