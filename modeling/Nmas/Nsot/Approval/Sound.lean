import Nmas.Nsot.Approval.Gate

/-!
Contract: which runs approve a template only rightly.

Owns: what every step in time keeps of the records, and the gate's answer after
any run of such steps.

The fingerprint is any function of the closure's files; where a theorem needs
that it tells two closures apart, the step that would confuse them is the one
that is not in time.
-/

namespace Nmas.Nsot.Approval.Repo

open Nmas.Text List
open Nmas.Log.Machine (run Along)

variable {path : Str}

theorem newest_append (changes : List Change) (change : Change) :
    newest (changes ++ [change]) path =
      if change.path = path then some change else newest changes path := by
  unfold newest
  rw [filter_append]
  by_cases isPath : change.path = path
  · rw [filter_cons_of_pos (by simpa using isPath), if_pos isPath]
    exact List.getLast?_concat
  · rw [filter_cons_of_neg (by simpa using isPath), if_neg isPath, filter_nil,
      append_nil]

theorem path_of_newest {changes : List Change} {change : Change}
    (isNewest : newest changes path = some change) : change ∈ changes ∧ change.path = path := by
  have member := mem_of_getLast? isNewest
  rw [mem_filter] at member
  exact ⟨member.1, of_decide_eq_true member.2⟩

theorem notRevokedSince_append {changes : List Change} {begun : Nat} {change : Change}
    (notRevoked : NotRevokedSince changes begun path) (isOther : change.revokes ≠ some path) :
    NotRevokedSince (changes ++ [change]) begun path := by
  intro one member
  rw [drop_append] at member
  rcases mem_append.mp member with old | new
  · exact notRevoked one old
  · rw [mem_singleton.mp (mem_of_mem_drop new)]
    exact isOther

variable {repo : Repo}

theorem holder_mem_standing {holder : Holder} {record : Record}
    (isNewest : newest repo.changes path = some (.approve holder record)) :
    holder ∈ repo.standing := by
  obtain ⟨member, isPath⟩ := path_of_newest isNewest
  unfold standing
  rw [mem_filterMap]
  refine ⟨_, member, ?_⟩
  rw [isPath, isNewest]

theorem effective_approval {fingerprint : Fingerprint} {approvedAt actor : Str}
    {evidence : Evidence}
    (isEffective : repo.effective path = some (.approval fingerprint approvedAt actor evidence)) :
    ∃ work head, repo.work = some work ∧ repo.head = some head ∧
      work path = some (.approval fingerprint approvedAt actor evidence) ∧
      head path = some (.approval fingerprint approvedAt actor evidence) := by
  unfold effective at isEffective
  rcases isWork : repo.work with - | work
  · rw [isWork] at isEffective
    cases isEffective
  · rcases isHead : repo.head with - | head
    · rw [isWork, isHead] at isEffective
      cases isEffective
    · rw [isWork, isHead] at isEffective
      simp only [Option.bind_eq_bind, Option.bind_some] at isEffective
      split at isEffective
      · rename_i isEntry
        split_ifs at isEffective with isCommitted
        rw [isEffective] at isEntry
        cases isEntry
        exact ⟨work, head, rfl, rfl, isEffective, isCommitted⟩
      · rename_i notApproval
        exact absurd isEffective (notApproval _ _ _ _)

variable {sha256 : Str → Str}

structure Validated (sha256 : Str → Str) (changes : List Change) (holder : Holder) : Prop where
  reads : holder.reads ⊆ holder.files
  fingerprint : holder.fingerprint = fingerprintOf sha256 holder.path holder.files
  notRevoked : NotRevokedSince changes holder.begun holder.path

theorem Validated.append {changes : List Change} {holder : Holder} {change : Change}
    (validated : Validated sha256 changes holder) (isOther : change.revokes ≠ some holder.path) :
    Validated sha256 (changes ++ [change]) holder :=
  ⟨validated.reads, validated.fingerprint, notRevokedSince_append validated.notRevoked isOther⟩

section
variable [Unicode]

/-- What the newest change of a template says of its record. -/
def Stands (sha256 : Str → Str) (repo : Repo) : Change → Prop
  | .approve holder record =>
    Validated sha256 repo.changes holder ∧
      Apart sha256 holder.path (closureFiles repo.templates holder.path) holder.files ∧
      ∃ approvedAt actor evidence, record = .approval holder.fingerprint approvedAt actor evidence
  | .revoke _ record =>
    ∀ fingerprint approvedAt actor evidence,
      record ≠ .approval fingerprint approvedAt actor evidence

/-- What every step in time keeps. -/
structure Sound (sha256 : Str → Str) (repo : Repo) : Prop where
  worked : ∀ data, repo.work = some data →
    ∀ path, data path = (newest repo.changes path).map Change.record
  stands : ∀ path change, newest repo.changes path = some change → repo.Stands sha256 change
  holds : ∀ holder, repo.holder = some holder → Validated sha256 repo.changes holder

theorem sound_new (templates : Templates) : Sound sha256 (new templates) where
  worked := by
    rintro data isWork path
    cases isWork
    rfl
  stands := by
    intro path change isNewest
    cases isNewest
  holds := by
    intro holder isHolder
    cases isHolder

theorem Sound.save {data : Approvals} {change : Change} (sound : Sound sha256 repo)
    (isWork : repo.work = some data)
    (stands : (repo.save data change).Stands sha256 change)
    (holds : ∀ holder, repo.holder = some holder → change.revokes ≠ some holder.path) :
    Sound sha256 (repo.save data change) where
  worked := by
    intro saved isSaved path
    cases isSaved
    change _ = (newest (repo.changes ++ [change]) path).map Change.record
    rw [newest_append]
    by_cases isPath : change.path = path
    · rw [if_pos isPath, ← isPath, Function.update_self]
      rfl
    · rw [if_neg isPath, Function.update_of_ne (Ne.symm isPath)]
      exact sound.worked data isWork path
  stands := by
    intro path one isNewest
    change newest (repo.changes ++ [change]) path = some one at isNewest
    rw [newest_append] at isNewest
    split_ifs at isNewest with isPath
    · cases isNewest
      exact stands
    · have stood := sound.stands path one isNewest
      have isOne := (path_of_newest isNewest).2
      cases one with
      | approve holder record =>
        obtain ⟨validated, apart, isRecord⟩ := stood
        refine ⟨validated.append ?_, apart, isRecord⟩
        intro revokes
        apply isPath
        cases change with
        | approve other record => cases revokes
        | revoke revoked record => exact (Option.some.inj revokes).trans isOne
      | revoke revoked record => exact stood
  holds holder isHolder := (sound.holds holder isHolder).append (holds holder isHolder)

theorem Sound.saveApproval {data : Approvals} {holder : Holder} {approvedAt actor : Str}
    {evidence : Evidence} (sound : Sound sha256 repo) (isWork : repo.work = some data)
    (isHolder : repo.holder = some holder)
    (apart : Apart sha256 holder.path (closureFiles repo.templates holder.path) holder.files) :
    Sound sha256 (repo.save data
      (.approve holder (.approval holder.fingerprint approvedAt actor evidence))) := by
  refine sound.save isWork ?_ (fun _ _ => nofun)
  exact ⟨(sound.holds holder isHolder).append nofun, apart, _, _, _, rfl⟩

theorem Sound.same {other : Repo} (sound : Sound sha256 repo) (sameWork : other.work = repo.work)
    (sameTemplates : other.templates = repo.templates) (sameChanges : other.changes = repo.changes)
    (holds : ∀ holder, other.holder = some holder → Validated sha256 repo.changes holder) :
    Sound sha256 other where
  worked := by
    rw [sameWork, sameChanges]
    exact sound.worked
  stands := by
    intro path change isNewest
    rw [sameChanges] at isNewest
    have stood := sound.stands path change isNewest
    cases change with
    | approve holder record =>
      unfold Stands at stood ⊢
      rw [sameChanges, sameTemplates]
      exact stood
    | revoke revoked record => exact stood
  holds := by
    rw [sameChanges]
    exact holds

/-- **Every step in time keeps the records sound.** -/
theorem Sound.step (sound : Sound sha256 repo) (act : Act) (inTime : repo.InTime sha256 act) :
    Sound sha256 (repo.step sha256 act) := by
  have noHolder : ∀ holder, (none : Option Holder) = some holder →
      Validated sha256 repo.changes holder := nofun
  cases act with
  | begins path shown =>
    rw [Repo.step]
    split
    · exact sound
    · exact sound.same rfl rfl rfl sound.holds
  | validates place => exact sound.same rfl rfl rfl sound.holds
  | reads place file => exact sound.same rfl rfl rfl sound.holds
  | ends place => exact sound.same rfl rfl rfl sound.holds
  | stages => exact sound.same rfl rfl rfl sound.holds
  | commits => exact sound.same rfl rfl rfl sound.holds
  | locks place =>
    rw [Repo.step]
    split
    · rename_i path before begun reads isFree isCall
      refine sound.same rfl rfl rfl ?_
      intro holder isHolder
      simp only at isHolder
      split_ifs at isHolder with moved
      cases isHolder
      obtain ⟨readNow, notRevoked⟩ := inTime _ isCall begun rfl (not_not.mp moved)
      exact ⟨readNow, rfl, notRevoked⟩
    · exact sound
  | saves approvedAt actor passed failed skipped =>
    rw [Repo.step]
    split
    · rename_i holder data isHolder isWork
      split_ifs
      · exact sound.same rfl rfl rfl noHolder
      · exact (sound.saveApproval isWork isHolder (inTime holder isHolder)).same rfl rfl rfl nofun
    · exact sound.same rfl rfl rfl noHolder
  | unlocks => exact sound.same rfl rfl rfl noHolder
  | revokes path reason revokedAt actor =>
    rw [Repo.step]
    split
    · rename_i data isFree isWork
      by_cases isBlank : strip reason = []
      · rw [if_pos isBlank]
        exact sound
      · rw [if_neg isBlank]
        refine sound.save isWork ?_ (fun holder isHolder => ?_)
        · intro fingerprint approvedAt approver evidence
          unfold tombstone
          split <;> nofun
        · rw [isFree] at isHolder
          cases isHolder
    · exact sound
  | edits path content =>
    refine ⟨sound.worked, ?_, sound.holds⟩
    intro other change isNewest
    have stood := sound.stands other change isNewest
    cases change with
    | approve holder record =>
      exact ⟨stood.1, inTime holder (holder_mem_standing isNewest), stood.2.2⟩
    | revoke revoked record => exact stood
  | damages =>
    refine ⟨fun data isWork => (by cases isWork), ?_, sound.holds⟩
    intro other change isNewest
    have stood := sound.stands other change isNewest
    cases change with
    | approve holder record | revoke revoked record => exact stood

theorem Sound.rightly (sound : Sound sha256 repo) (isApproved : repo.isApproved sha256 path) :
    repo.RightlyApproved path := by
  unfold Repo.isApproved at isApproved
  split at isApproved
  · rename_i fingerprint approvedAt actor evidence isEffective
    obtain ⟨work, head, isWork, isHead, inWork, inHead⟩ := effective_approval isEffective
    rw [Bool.and_eq_true, decide_eq_true_eq, decide_eq_true_eq] at isApproved
    have isRecord := sound.worked work isWork path
    rw [inWork] at isRecord
    obtain ⟨change, isNewest, sameRecord⟩ := Option.map_eq_some_iff.mp isRecord.symm
    have stood := sound.stands path change isNewest
    have isPath := (path_of_newest isNewest).2
    unfold RightlyApproved
    rw [isNewest]
    cases change with
    | revoke revoked record => exact absurd sameRecord (stood _ _ _ _)
    | approve holder record =>
      obtain ⟨validated, apart, _, _, _, isApproval⟩ := stood
      cases isPath
      have isFiles : closureFiles repo.templates holder.path = holder.files := by
        apply apart
        change record = _ at sameRecord
        rw [isApproval] at sameRecord
        injection sameRecord with sameFingerprint
        rw [← validated.fingerprint, sameFingerprint]
        exact isApproved.2.symm
      refine ⟨?_, ?_, validated.notRevoked⟩
      · change holder.reads ⊆ closureFiles repo.templates holder.path
        rw [isFiles]
        exact validated.reads
      · rw [isHead]
        exact inHead.trans (congrArg some sameRecord.symm)
  · cases isApproved

/-- **An approved template was validated as it is and not revoked since**, in the runs in
which an approve that takes the lock read what it fingerprinted, with no revocation
meanwhile, and no closure has the fingerprint of another that stands approved. -/
theorem approvals_right (sha256 : Str → Str) (templates : Templates) (acts : List Act)
    (inTime : Along (step sha256) (InTime sha256) (new templates) acts) (path : Str)
    (isApproved : (run (step sha256) (new templates) acts).isApproved sha256 path) :
    (run (step sha256) (new templates) acts).RightlyApproved path := by
  have sound : Sound sha256 (run (step sha256) (new templates) acts) :=
    inTime.keeps (fun _ act sound isInTime => sound.step act isInTime) (sound_new templates)
  exact sound.rightly isApproved

end

/-- The digests of one template's closure and of its payload. -/
def digests (text : Str) : Str :=
  if text = "--- a.j2\nhostname".ascii then
    "94b51f08b4a6018fb82d7af644ebb6cb24037f91fbf24df38e32bc14a0c04a4d".ascii
  else "6d2644cb38ceb1b403da636da529b4a25937f1bb49cc71d17bb6c04896638039".ascii

def oneTemplate : Templates := [("a.j2".ascii, "hostname".ascii)]

def approvedOnce : List Act :=
  [.begins "a.j2".ascii none, .validates 0, .reads 0 "a.j2".ascii, .locks 0,
    .saves "2026-10-28T09:00:00Z".ascii "admin".ascii ["r1".ascii] [] [], .stages, .commits]

theorem approved_once_right :
    letI : Unicode := basicLatin
    (run (step digests) (new oneTemplate) approvedOnce).RightlyApproved "a.j2".ascii :=
  have inTime : letI : Unicode := basicLatin
      Along (step digests) (InTime digests) (new oneTemplate) approvedOnce := by decide +kernel
  have isApproved : letI : Unicode := basicLatin
      (run (step digests) (new oneTemplate) approvedOnce).isApproved digests "a.j2".ascii = true := by
    decide +kernel
  letI : Unicode := basicLatin
  approvals_right digests oneTemplate approvedOnce inTime "a.j2".ascii isApproved

/-- A revocation lands while the approve validates. -/
def revokedMeanwhile : List Act :=
  [.begins "a.j2".ascii none, .validates 0, .reads 0 "a.j2".ascii,
    .revokes "a.j2".ascii "wrong vlan".ascii "2026-10-28T08:59:59Z".ascii "eve".ascii, .locks 0,
    .saves "2026-10-28T09:00:00Z".ascii "admin".ascii ["r1".ascii] [] [], .stages, .commits]

/-- The save overwrites the tombstone, and the gate answers yes. -/
theorem revocation_overwritten :
    letI : Unicode := basicLatin
    (run (step digests) (new oneTemplate) revokedMeanwhile).isApproved digests "a.j2".ascii = true ∧
      ¬ (run (step digests) (new oneTemplate) revokedMeanwhile).RightlyApproved "a.j2".ascii := by
  decide +kernel

end Nmas.Nsot.Approval.Repo
