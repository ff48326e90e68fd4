import Mathlib.Data.Char
import Mathlib.Data.List.Dedup
import Mathlib.Data.List.Lex
import Mathlib.Data.List.Sort
import Nmas.Text.Str

/-!
Contract: the deployability gate and the acknowledgement of unmodelled lines.

Owns: `nsot/render_artifact.py`, `unmodeled_lines` to `acknowledgement_gap`, and
`blocking_reasons`, `deployable` and `complete` of `RenderArtifact`; and which
documents the gate lets pass with an incomplete acknowledgement.

Does not own: the validator whose counts a report holds, and the words of a
reason. A reason here is what its words are made of.
-/

namespace Nmas.Nsot.Artifact

open Nmas.Text List

/-- A block the parser did not model: its line and the lines under it. -/
structure UnmodeledEntry where
  line : Str
  children : List Str
deriving DecidableEq

/-- What of `host_vars` the gate reads. -/
structure HostVars where
  unmodeled : List UnmodeledEntry
  /-- The unmodelled lines of each interface. -/
  interfaces : List (List Str)
  /-- `unmodeled_ack`'s lines. -/
  acknowledged : List Str
deriving DecidableEq

/-- `sorted` of texts. -/
def sorted (lines : List Str) : List Str := lines.insertionSort (· ≤ ·)

def unmodeledLines (vars : HostVars) : List Str :=
  sorted (vars.unmodeled.flatMap (fun entry => rstrip entry.line :: entry.children.map rstrip) ++
    vars.interfaces.flatMap (fun lines => lines.map rstrip))

def acknowledgedLines (vars : HostVars) : List Str := sorted (vars.acknowledged.map rstrip)

/-! ### A line as an acknowledgement compares it -/

def referenceLead : Str := "__secret__:unmodeled_".ascii

def isLabelChar (c : Char) : Bool := ('a' ≤ c && c ≤ 'z') || ('0' ≤ c && c ≤ '9') || c == '_'

def isDigestChar (c : Char) : Bool := ('0' ≤ c && c ≤ '9') || ('a' ≤ c && c ≤ 'f')

/-- What follows `_` and the ten digits of a digest, if the text starts with them. -/
def afterDigest : Str → Option Str
  | '_' :: rest =>
    if (rest.take 10).length = 10 ∧ (rest.take 10).all isDigestChar then some (rest.drop 10)
    else none
  | _ => none

def labelFrom (taken : Str) : Str → Option (Str × Str)
  | [] => none
  | c :: rest =>
    if isLabelChar c then
      match afterDigest rest with
      | some after => some (taken ++ [c], after)
      | none => labelFrom (taken ++ [c]) rest
    else none

/-- `_UNMODELED_REF.sub(r"\1", text)`, for a text of at most `room` characters. -/
def dropDigests : (room : Nat) → Str → Str
  | 0, text => text
  | _ + 1, [] => []
  | room + 1, c :: rest =>
    match (afterPrefix referenceLead (c :: rest)).bind (labelFrom []) with
    | some (label, after) => referenceLead ++ label ++ dropDigests room after
    | none => c :: dropDigests room rest

def ackForm (line : Str) : Str := dropDigests (rstrip line).length (rstrip line)

/-! ### The acknowledgement -/

structure Gap where
  unacknowledged : List Str
  stale : List Str
  complete : Bool
deriving DecidableEq

def acknowledgementIsComplete (vars : HostVars) : Bool :=
  if unmodeledLines vars = [] then true
  else sorted ((acknowledgedLines vars).map ackForm) = sorted ((unmodeledLines vars).map ackForm)

def acknowledgementGap (vars : HostVars) : Gap where
  unacknowledged := sorted ((unmodeledLines vars).dedup.filter (fun line =>
    ackForm line ∉ (acknowledgedLines vars).map ackForm))
  stale := sorted ((acknowledgedLines vars).dedup.filter (fun line =>
    ackForm line ∉ (unmodeledLines vars).map ackForm))
  complete := acknowledgementIsComplete vars

/-! ### The artifact -/

structure Report where
  missingFromRender : Nat
  extraInRender : Nat
  reorderedSections : Nat
deriving DecidableEq

/-- What is on record of a deploy of this intent that was rolled back. -/
inductive RolledBack where
  | unreadable (reason : Str)
  | at_ (when_ : Option Str) (reason : Option Str)
deriving DecidableEq

/-- The fields of `RenderArtifact` the gate reads. -/
structure RenderArtifact where
  template : Str
  report : Option Report
  hostVars : HostVars
  templateApproved : Bool
  bootstrap : Bool
  bootstrapReason : Str
  templateReport : Option Report
  rolledBack : Option RolledBack
  unsendable : List Str
deriving DecidableEq

/-- Why an artifact may not be deployed. -/
inductive Reason where
  | bootstrap (why : Str)
  /-- How many lines are not acknowledged, the first of them, and whether there
  are more. -/
  | unacknowledged (count : Nat) (first : List Str) (more : Bool)
  /-- How many acknowledged lines are no longer present. -/
  | stale (count : Nat)
  | missing (count : Nat)
  | extra (count : Nat)
  | reordered (count : Nat)
  | unapproved (template : Str)
  | rolledBackUnreadable (reason : Str)
  | rolledBack (when_ reason : Str)
  | unsendable (count : Nat) (first : List Str) (more : Bool)
deriving DecidableEq

namespace RenderArtifact

variable (artifact : RenderArtifact)

/-- The report fidelity is judged on; an absent one counts nothing. -/
def judged : Report := (artifact.templateReport.or artifact.report).getD ⟨0, 0, 0⟩

def bootstrapReasons : List Reason :=
  if artifact.bootstrap then
    [.bootstrap (if artifact.bootstrapReason = [] then
      "no committed intent for this device — review and commit extracted host_vars first".toList
      else artifact.bootstrapReason)]
  else []

def acknowledgementReasons : List Reason :=
  let gap := acknowledgementGap artifact.hostVars
  if gap.complete then []
  else
    (if gap.unacknowledged = [] then []
      else [.unacknowledged gap.unacknowledged.length (gap.unacknowledged.take 3)
        (3 < gap.unacknowledged.length)]) ++
    (if gap.stale = [] then [] else [.stale gap.stale.length])

def counted (reason : Nat → Reason) (count : Nat) : List Reason :=
  if count = 0 then [] else [reason count]

def fidelityReasons : List Reason :=
  counted .missing artifact.judged.missingFromRender ++
    counted .extra artifact.judged.extraInRender ++
    counted .reordered artifact.judged.reorderedSections

def approvalReasons : List Reason :=
  if artifact.templateApproved then [] else [.unapproved artifact.template]

def rolledBackReasons : List Reason :=
  match artifact.rolledBack with
  | none => []
  | some (.unreadable reason) => [.rolledBackUnreadable reason]
  | some (.at_ when_ reason) =>
    [.rolledBack (when_.getD "an earlier time".ascii) (reason.getD [])]

def unsendableReasons : List Reason :=
  if artifact.unsendable = [] then []
  else [.unsendable artifact.unsendable.length (artifact.unsendable.take 2)
    (2 < artifact.unsendable.length)]

def blockingReasons : List Reason :=
  artifact.bootstrapReasons ++ artifact.acknowledgementReasons ++ artifact.fidelityReasons ++
    artifact.approvalReasons ++ artifact.rolledBackReasons ++ artifact.unsendableReasons

def deployable : Bool := artifact.blockingReasons = []

def complete : Bool :=
  acknowledgementIsComplete artifact.hostVars &&
    !(artifact.judged.missingFromRender ≠ 0 ∨ artifact.judged.extraInRender ≠ 0 ∨
      artifact.judged.reorderedSections ≠ 0)

end RenderArtifact

/-! ### Complete acknowledgements -/

section Acknowledgements

variable {vars : HostVars} {lines others : List Str}

theorem sorted_perm (lines : List Str) : (sorted lines).Perm lines :=
  perm_insertionSort _ lines

theorem sorted_eq_nil_iff : sorted lines = [] ↔ lines = [] := by
  rw [← length_eq_zero_iff, (sorted_perm lines).length_eq, length_eq_zero_iff]

theorem sorted_eq_iff_perm : sorted lines = sorted others ↔ lines.Perm others := by
  constructor
  · intro same
    exact (sorted_perm lines).symm.trans (same ▸ sorted_perm others)
  · intro perm
    refine List.Perm.eq_of_pairwise ?_ (pairwise_insertionSort _ lines)
      (pairwise_insertionSort _ others)
      ((sorted_perm lines).trans (perm.trans (sorted_perm others).symm))
    intro one other _ _ below above
    exact le_antisymm below above

/-- The acknowledged and the unmodelled lines are the same, as often as each
occurs. -/
def Matched (vars : HostVars) : Prop :=
  ((acknowledgedLines vars).map ackForm).Perm ((unmodeledLines vars).map ackForm)

/-- Some unmodelled line has no acknowledgement. -/
def Unacknowledged (vars : HostVars) : Prop :=
  ∃ line ∈ unmodeledLines vars, ackForm line ∉ (acknowledgedLines vars).map ackForm

def Stale (vars : HostVars) : Prop :=
  ∃ line ∈ acknowledgedLines vars, ackForm line ∉ (unmodeledLines vars).map ackForm

theorem complete_iff :
    acknowledgementIsComplete vars ↔ unmodeledLines vars = [] ∨ Matched vars := by
  unfold acknowledgementIsComplete Matched
  split_ifs with empty
  · simp [empty]
  · rw [decide_eq_true_iff, sorted_eq_iff_perm, or_iff_right empty]

private theorem sorted_filter_ne_nil_iff {p : Str → Bool} :
    sorted (lines.dedup.filter p) ≠ [] ↔ ∃ line ∈ lines, p line := by
  rw [ne_eq, sorted_eq_nil_iff, filter_eq_nil_iff]
  simp only [mem_dedup, not_forall, not_not, exists_prop]

theorem unacknowledged_ne_nil_iff :
    (acknowledgementGap vars).unacknowledged ≠ [] ↔ Unacknowledged vars := by
  unfold acknowledgementGap Unacknowledged
  rw [sorted_filter_ne_nil_iff]
  simp only [decide_eq_true_eq]

theorem stale_ne_nil_iff : (acknowledgementGap vars).stale ≠ [] ↔ Stale vars := by
  unfold acknowledgementGap Stale
  rw [sorted_filter_ne_nil_iff]
  simp only [decide_eq_true_eq]

theorem not_matched_of_gap (gap : Unacknowledged vars ∨ Stale vars) : ¬ Matched vars := by
  intro matched
  rcases gap with ⟨line, member, absent⟩ | ⟨line, member, absent⟩
  · exact absent (matched.mem_iff.mpr (mem_map_of_mem member))
  · exact absent (matched.mem_iff.mp (mem_map_of_mem member))

end Acknowledgements

/-! ### The gate -/

def Reason.quoted : Reason → List Str
  | .unacknowledged _ first _ => first
  | _ => []

def Reason.Quotes (vars : HostVars) (reason : Reason) : Prop :=
  ∃ line ∈ reason.quoted,
    line ∈ (acknowledgementGap vars).unacknowledged ∨ line ∈ (acknowledgementGap vars).stale

/-- It quotes such a line, or counts the stale ones. -/
def Reason.Tells (vars : HostVars) (reason : Reason) : Prop :=
  reason.Quotes vars ∨ Stale vars ∧ reason = .stale (acknowledgementGap vars).stale.length

/-- What can be deployed is acknowledged exactly, and an acknowledgement that is not
exact is named. -/
structure Gated (artifact : RenderArtifact) (Names : Reason → Prop) : Prop where
  exact_ : artifact.deployable = true → Matched artifact.hostVars ∧ artifact.complete = true
  named : ¬ Matched artifact.hostVars → ∃ reason ∈ artifact.blockingReasons, Names reason

section Gate

variable {artifact : RenderArtifact} {reason : Reason}

private theorem quoted_of_other (member : reason ∈ artifact.bootstrapReasons ++
      artifact.fidelityReasons ++ artifact.approvalReasons ++ artifact.rolledBackReasons ++
      artifact.unsendableReasons) :
    reason.quoted = [] ∧ ∀ count, reason ≠ .stale count := by
  simp only [RenderArtifact.bootstrapReasons, RenderArtifact.fidelityReasons,
    RenderArtifact.counted, RenderArtifact.approvalReasons, RenderArtifact.unsendableReasons,
    mem_append, mem_ite_nil_left, mem_ite_nil_right, mem_singleton] at member
  rcases member with
    (((⟨-, rfl⟩ | (⟨-, rfl⟩ | ⟨-, rfl⟩) | ⟨-, rfl⟩) | ⟨-, rfl⟩) | rolledBack) | ⟨-, rfl⟩
  case inl.inr =>
    unfold RenderArtifact.rolledBackReasons at rolledBack
    split at rolledBack
    · cases rolledBack
    · obtain rfl := mem_singleton.mp rolledBack
      exact ⟨rfl, nofun⟩
    · obtain rfl := mem_singleton.mp rolledBack
      exact ⟨rfl, nofun⟩
  all_goals exact ⟨rfl, nofun⟩

theorem mem_acknowledgementReasons_of_tells (member : reason ∈ artifact.blockingReasons)
    (tells : reason.Tells artifact.hostVars) : reason ∈ artifact.acknowledgementReasons := by
  by_contra other
  have isOther : reason.quoted = [] ∧ ∀ count, reason ≠ .stale count := by
    apply quoted_of_other
    unfold RenderArtifact.blockingReasons at member
    simp only [mem_append] at member ⊢
    tauto
  rcases tells with ⟨line, isQuoted, -⟩ | ⟨-, isStale⟩
  · rw [isOther.1] at isQuoted
    cases isQuoted
  · exact isOther.2 _ isStale

theorem acknowledgementReasons_eq_nil_iff :
    artifact.acknowledgementReasons = [] ↔
      acknowledgementIsComplete artifact.hostVars ∨
        ¬ (Unacknowledged artifact.hostVars ∨ Stale artifact.hostVars) := by
  rw [← unacknowledged_ne_nil_iff, ← stale_ne_nil_iff]
  unfold RenderArtifact.acknowledgementReasons
  have isComplete : (acknowledgementGap artifact.hostVars).complete =
    acknowledgementIsComplete artifact.hostVars := rfl
  simp only [isComplete]
  split_ifs with complete noneMissing noneStale noneStale <;> simp_all

theorem unacknowledged_of_quotes (member : reason ∈ artifact.acknowledgementReasons)
    (quotes : reason.Quotes artifact.hostVars) : Unacknowledged artifact.hostVars := by
  rw [← unacknowledged_ne_nil_iff]
  intro noneMissing
  unfold RenderArtifact.acknowledgementReasons at member
  simp only [noneMissing, if_true, nil_append] at member
  obtain ⟨line, isQuoted, -⟩ := quotes
  split_ifs at member
  · cases member
  · cases member
  · obtain rfl := mem_singleton.mp member
    cases isQuoted

theorem quotes_of_unacknowledged (incomplete : acknowledgementIsComplete artifact.hostVars = false)
    (gap : Unacknowledged artifact.hostVars) :
    ∃ reason ∈ artifact.acknowledgementReasons, reason.Quotes artifact.hostVars := by
  have someMissing := unacknowledged_ne_nil_iff.mpr gap
  obtain ⟨line, rest, isCons⟩ := exists_cons_of_ne_nil someMissing
  refine ⟨.unacknowledged (acknowledgementGap artifact.hostVars).unacknowledged.length
    ((acknowledgementGap artifact.hostVars).unacknowledged.take 3)
    (3 < (acknowledgementGap artifact.hostVars).unacknowledged.length), ?_, line, ?_, .inl ?_⟩
  · unfold RenderArtifact.acknowledgementReasons
    have isIncomplete : (acknowledgementGap artifact.hostVars).complete = false := incomplete
    simp only [isIncomplete, Bool.false_eq_true, if_false, if_neg someMissing]
    exact mem_append_left _ (.head _)
  · show line ∈ (acknowledgementGap artifact.hostVars).unacknowledged.take 3
    rw [isCons]
    exact .head _
  · rw [isCons]
    exact .head _

theorem tells_of_gap (incomplete : acknowledgementIsComplete artifact.hostVars = false)
    (gap : Unacknowledged artifact.hostVars ∨ Stale artifact.hostVars) :
    ∃ reason ∈ artifact.acknowledgementReasons, reason.Tells artifact.hostVars := by
  rcases gap with missing | stale
  · obtain ⟨reason, member, quotes⟩ := quotes_of_unacknowledged incomplete missing
    exact ⟨reason, member, .inl quotes⟩
  · refine ⟨.stale (acknowledgementGap artifact.hostVars).stale.length, ?_, .inr ⟨stale, rfl⟩⟩
    unfold RenderArtifact.acknowledgementReasons
    have isIncomplete : (acknowledgementGap artifact.hostVars).complete = false := incomplete
    simp only [isIncomplete, Bool.false_eq_true, if_false, if_neg (stale_ne_nil_iff.mpr stale)]
    exact mem_append_right _ (.head _)

theorem not_deployable_of_mem (member : reason ∈ artifact.blockingReasons) :
    artifact.deployable = false := by
  unfold RenderArtifact.deployable
  exact decide_eq_false (ne_nil_of_mem member)

theorem mem_blockingReasons (member : reason ∈ artifact.acknowledgementReasons) :
    reason ∈ artifact.blockingReasons := by
  unfold RenderArtifact.blockingReasons
  simp only [mem_append, member, or_true, true_or]

theorem counts_of_deployable (deployable : artifact.deployable) :
    artifact.fidelityReasons = [] := by
  have noReason : artifact.blockingReasons = [] := of_decide_eq_true deployable
  unfold RenderArtifact.blockingReasons at noReason
  simp only [append_eq_nil_iff] at noReason
  exact noReason.1.1.1.2

theorem complete_of_deployable (deployable : artifact.deployable)
    (isComplete : acknowledgementIsComplete artifact.hostVars) :
    artifact.complete := by
  have noCount := counts_of_deployable deployable
  unfold RenderArtifact.fidelityReasons RenderArtifact.counted at noCount
  simp only [append_eq_nil_iff, ite_eq_left_iff, reduceCtorEq, imp_false, not_not] at noCount
  unfold RenderArtifact.complete
  simp [isComplete, noCount.1.1, noCount.1.2, noCount.2]

/-- A gate whose reasons tell of the acknowledgement keeps its word exactly on
matched lines and where, with something unmodelled, a line is missing or stale. -/
private theorem gated_iff {Names : Reason → Prop} {gap : Prop}
    (gapped : gap → Unacknowledged artifact.hostVars ∨ Stale artifact.hostVars)
    (told : ∀ reason, Names reason → reason.Tells artifact.hostVars)
    (tells : ∀ reason ∈ artifact.acknowledgementReasons, Names reason → gap)
    (names : acknowledgementIsComplete artifact.hostVars = false → gap →
      ∃ reason ∈ artifact.acknowledgementReasons, Names reason) :
    Gated artifact Names ↔
      Matched artifact.hostVars ∨ unmodeledLines artifact.hostVars ≠ [] ∧ gap := by
  constructor
  · intro gated
    by_cases matched : Matched artifact.hostVars
    · exact .inl matched
    · obtain ⟨reason, member, isNamed⟩ := gated.named matched
      have ofAcknowledgement := mem_acknowledgementReasons_of_tells member (told reason isNamed)
      refine .inr ⟨fun none_ => ?_, tells reason ofAcknowledgement isNamed⟩
      have silent := acknowledgementReasons_eq_nil_iff.mpr (.inl (complete_iff.mpr (.inl none_)))
      rw [silent] at ofAcknowledgement
      cases ofAcknowledgement
  · rintro (matched | ⟨some_, isGap⟩)
    · refine ⟨fun deployable => ⟨matched, ?_⟩, fun unmatched => absurd matched unmatched⟩
      exact complete_of_deployable deployable (complete_iff.mpr (.inr matched))
    · have incomplete : acknowledgementIsComplete artifact.hostVars = false := by
        rw [Bool.eq_false_iff, ne_eq, complete_iff, not_or]
        exact ⟨some_, not_matched_of_gap (gapped isGap)⟩
      obtain ⟨reason, member, isNamed⟩ := names incomplete isGap
      refine ⟨fun deployable => ?_, fun _ => ⟨reason, mem_blockingReasons member, isNamed⟩⟩
      rw [not_deployable_of_mem (mem_blockingReasons member)] at deployable
      cases deployable

end Gate

/-- **The gate holds** exactly when the two sides match, or something is
unmodelled and a line is missing or stale. A reason quotes such a line exactly
when they match or a line is missing: of the stale ones it gives the number. -/
theorem gate_holds_iff (artifact : RenderArtifact) :
    (Gated artifact (·.Tells artifact.hostVars) ↔
      Matched artifact.hostVars ∨
        unmodeledLines artifact.hostVars ≠ [] ∧
          (Unacknowledged artifact.hostVars ∨ Stale artifact.hostVars)) ∧
    (Gated artifact (·.Quotes artifact.hostVars) ↔
      Matched artifact.hostVars ∨ Unacknowledged artifact.hostVars) := by
  constructor
  · refine gated_iff id (fun _ => id) ?_ tells_of_gap
    intro reason member tells
    rcases tells with quotes | ⟨stale, -⟩
    · exact Or.inl (unacknowledged_of_quotes member quotes)
    · exact Or.inr stale
  · have quoted := @gated_iff artifact _ _ Or.inl (fun _ => Or.inl)
      (fun _ => unacknowledged_of_quotes) quotes_of_unacknowledged
    rw [quoted]
    refine or_congr_right (and_iff_right_of_imp ?_)
    rintro ⟨line, member, -⟩
    exact List.ne_nil_of_mem member

/-- One description under two interfaces, acknowledged once: nothing is missing or
stale, so nothing blocks, and the acknowledgement is not complete. -/
theorem acknowledged_once :
    let vars : HostVars := ⟨[], [[" mop enabled".ascii], [" mop enabled".ascii]],
      [" mop enabled".ascii]⟩
    let artifact : RenderArtifact :=
      ⟨"edge".ascii, some ⟨0, 0, 0⟩, vars, true, false, [], some ⟨0, 0, 0⟩, none, []⟩
    artifact.deployable = true ∧ artifact.complete = false ∧
      ¬ Gated artifact (·.Tells artifact.hostVars) := by
  intro vars artifact
  have isDeployable : artifact.deployable = true := by decide +kernel
  have isIncomplete : artifact.complete = false := by decide +kernel
  refine ⟨isDeployable, isIncomplete, fun gated => ?_⟩
  rw [(gated.exact_ isDeployable).2] at isIncomplete
  cases isIncomplete

end Nmas.Nsot.Artifact
