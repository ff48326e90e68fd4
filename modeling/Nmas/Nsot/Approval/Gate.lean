import Mathlib.Data.Char
import Mathlib.Data.List.Lex
import Mathlib.Data.List.Sort
import Nmas.Fixpoint.Worklist
import Nmas.Log.Machine
import Nmas.Text.Json
import Nmas.Text.Regex

/-!
Contract: what a template's approval is bound to, and what `is_approved` answers
for, while people approve, revoke, edit and commit.

Owns: `template_imports`, `template_closure`, `template_closure_text` and
`template_fingerprint` of `nsot/approval.py`, over a library of template files;
`approve` in its steps (fingerprint, validate, lock, fingerprint, save),
`revoke`, the commit of the record, edits of the template files, `_effective` and
`is_approved`; and the runs in which an approved template was validated as it is
and not revoked since.

Does not own: two spellings of one path (a file is named by its path), whether a
device validates, and a record's page.

The records are followed by what was saved into the working one, in order.
-/

namespace Nmas.Nsot.Approval

open Nmas.Text
open Nmas.Fixpoint

abbrev Templates := List (Str × Str)

def readTemplate (templates : Templates) (path : Str) : Option Str :=
  (templates.find? (fun file => file.1 = path)).map Prod.snd

def Templates.edit (templates : Templates) (path : Str) (content : Option Str) : Templates :=
  content.toList.map (fun text => (path, text)) ++ templates.filter (fun file => file.1 ≠ path)

section
variable [Unicode]

/-- `_IMPORT_RE`. -/
def importRegex : Regex :=
  let quote := Regex.one (fun c => c = '\'' ∨ c = '"')
  .all [.lit "\x7b%".ascii, .maybe (.lit "-".ascii), .many .space,
    .anyOf ["import", "include", "extends", "from"], .plus .space, quote,
    .named (.plus (.one (fun c => c ≠ '\'' ∧ c ≠ '"'))), quote]

def templateImports (text : Str) : List Str := importRegex.findNames text

/-- What the loop of `template_closure` goes on to from a path. -/
def importsOf (templates : Templates) (path : Str) : List Str :=
  (readTemplate templates path).elim [] templateImports

def paths (templates : Templates) : List Str := (templates.map Prod.fst).dedup

def templateClosure (templates : Templates) (path : Str) : List Str :=
  let room := 1 + Worklist.ahead (importsOf templates) (paths templates) []
  ((Worklist.closureFrom (importsOf templates) room [] [path]).getD []).insertionSort (· ≤ ·)

def closureFiles (templates : Templates) (path : Str) : List (Str × Option Str) :=
  (templateClosure templates path).map (fun file => (file, readTemplate templates file))

/-- `template_closure_text`. -/
def closureText (files : List (Str × Option Str)) : Str :=
  ['\n'].intercalate (files.map (fun file =>
    "--- ".ascii ++ file.1 ++ ['\n'] ++ file.2.getD []))

variable {templates : Templates} {path other : Str}

theorem templateClosure_eq (templates : Templates) (path : Str) :
    ∃ seen, Worklist.closureFrom (importsOf templates)
      (1 + Worklist.ahead (importsOf templates) (paths templates) []) [] [path] = some seen ∧
      templateClosure templates path = seen.insertionSort (· ≤ ·) := by
  obtain ⟨seen, isSeen⟩ := @Worklist.closureFrom_ends _ _ (importsOf templates)
    (1 + Worklist.ahead (importsOf templates) (paths templates) []) [] [path] (paths templates)
    (List.nodup_dedup _) (fun item absent => by
      unfold importsOf readTemplate
      rw [List.find?_eq_none.mpr]
      · rfl
      · rintro file member isItem
        apply absent
        unfold paths
        rw [List.mem_dedup, ← of_decide_eq_true isItem]
        exact List.mem_map_of_mem member) (Nat.le_refl _)
  refine ⟨seen, isSeen, ?_⟩
  simp only [templateClosure, isSeen, Option.getD_some]

end

def fingerprintScheme : Nat := 3

/-- What `template_fingerprint` returns. -/
structure Fingerprint where
  scheme : Nat
  template : Str
  templateHash : Str
  fingerprint : Str
deriving DecidableEq

/-- The first characters of a `hexdigest`. -/
def shortHash (sha256 : Str → Str) (text : Str) : Str := (sha256 text).take 16

/-- `template_fingerprint`, from the closure's files. -/
def fingerprintOf (sha256 : Str → Str) (path : Str) (files : List (Str × Option Str)) :
    Fingerprint :=
  let templateHash := shortHash sha256 (closureText files)
  let payload := jsonObject [("scheme".ascii, (Nat.repr fingerprintScheme).toList),
    ("template".ascii, jsonString path), ("template_hash".ascii, jsonString templateHash)]
  ⟨fingerprintScheme, path, templateHash, shortHash sha256 payload⟩

end Nmas.Nsot.Approval

namespace Nmas.Nsot.Approval

open Nmas.Text
open Nmas.Log.Machine (run Along)

/-- What an approval records of its validation. -/
structure Evidence where
  validated : List Str
  failed : List (Str × Str)
  notValidated : List (Str × Str)
  bound : Nat
deriving DecidableEq

inductive Record where
  | approval (fingerprint : Fingerprint) (approvedAt actor : Str) (evidence : Evidence)
  | tombstone (reason revokedAt actor previousFingerprint previouslyApprovedAt
      previouslyApprovedBy : Str) (previousEvidence : Option Evidence)
deriving DecidableEq

abbrev Approvals := Str → Option Record

/-- An `approve` before its save: its first fingerprint, how many changes the record had
when validation began, and each file a validation read. -/
structure Call where
  path : Str
  before : Fingerprint
  begun : Option Nat
  reads : List (Str × Option Str)
deriving DecidableEq

/-- An `approve` that holds the lock and found its fingerprint again, over these files. -/
structure Holder where
  path : Str
  begun : Nat
  reads : List (Str × Option Str)
  fingerprint : Fingerprint
  files : List (Str × Option Str)
deriving DecidableEq

inductive Change where
  | approve (holder : Holder) (record : Record)
  | revoke (path : Str) (record : Record)
deriving DecidableEq

def Change.path : Change → Str
  | .approve holder _ => holder.path
  | .revoke path _ => path

def Change.revokes : Change → Option Str
  | .approve _ _ => none
  | .revoke path _ => some path

def Change.record : Change → Record
  | .approve _ record => record
  | .revoke _ record => record

/-- The template files; the working record, the staged one and the committed one, none where
it cannot be read; the approves that are running, the one with the lock, and the changes
saved. -/
structure Repo where
  templates : Templates
  work : Option Approvals
  staged : Option Approvals
  head : Option Approvals
  calls : List Call
  holder : Option Holder
  changes : List Change

/-- A repository nothing was approved in. -/
def Repo.new (templates : Templates) : Repo where
  templates := templates
  work := some (fun _ => none)
  staged := some (fun _ => none)
  head := some (fun _ => none)
  calls := []
  holder := none
  changes := []

inductive Act where
  /-- `approve` takes its first fingerprint, for a page that showed one or for none. -/
  | begins (path : Str) (shown : Option Str)
  /-- It begins to validate. -/
  | validates (place : Nat)
  /-- One of its validations reads a file. -/
  | reads (place : Nat) (file : Str)
  /-- Nothing validated, or its process ends. -/
  | ends (place : Nat)
  /-- It takes the lock and its second fingerprint. -/
  | locks (place : Nat)
  /-- It saves, and lets the lock go. -/
  | saves (approvedAt actor : Str) (passed : List Str) (failed skipped : List (Str × Str))
  /-- It lets the lock go without a save. -/
  | unlocks
  | revokes (path reason revokedAt actor : Str)
  | edits (path : Str) (content : Option Str)
  /-- The working record is damaged. -/
  | damages
  /-- A commit stages the record. -/
  | stages
  | commits

namespace Repo

variable [Unicode] (sha256 : Str → Str)

/-- `template_fingerprint`. -/
def fingerprint (repo : Repo) (path : Str) : Fingerprint :=
  fingerprintOf sha256 path (closureFiles repo.templates path)

/-- `data[rel_path] = record`, saved. -/
def save (repo : Repo) (data : Approvals) (change : Change) : Repo :=
  { repo with
    work := some (Function.update data change.path (some change.record))
    changes := repo.changes ++ [change] }

/-- What `revoke` keeps of the record it withdraws. -/
def tombstone (reason revokedAt actor : Str) : Option Record → Record
  | some (.approval fingerprint approvedAt approver evidence) =>
    .tombstone (strip reason) revokedAt actor fingerprint.fingerprint approvedAt approver
      (some evidence)
  | some (.tombstone _ _ revoker _ _ _ _) =>
    .tombstone (strip reason) revokedAt actor [] [] revoker none
  | none => .tombstone (strip reason) revokedAt actor [] [] [] none

def step (repo : Repo) : Act → Repo
  | .begins path shown =>
    let before := repo.fingerprint sha256 path
    if shown.any (· ≠ before.fingerprint) then repo
    else { repo with calls := repo.calls ++ [⟨path, before, none, []⟩] }
  | .validates place =>
    { repo with calls := repo.calls.modify place (fun call =>
        { call with begun := some (call.begun.getD repo.changes.length) }) }
  | .reads place file =>
    { repo with calls := repo.calls.modify place (fun call =>
        { call with reads := call.reads ++ [(file, readTemplate repo.templates file)] }) }
  | .ends place => { repo with calls := repo.calls.eraseIdx place }
  | .locks place =>
    match repo.holder, repo.calls[place]? with
    | none, some ⟨path, before, some begun, reads⟩ =>
      let now := repo.fingerprint sha256 path
      { repo with
        calls := repo.calls.eraseIdx place
        holder := if now.fingerprint ≠ before.fingerprint then none
          else some ⟨path, begun, reads, now, closureFiles repo.templates path⟩ }
    | _, _ => repo
  | .saves approvedAt actor passed failed skipped =>
    match repo.holder, repo.work with
    | some holder, some data =>
      if passed = [] then { repo with holder := none }
      else
        let evidence : Evidence := ⟨passed.insertionSort (· ≤ ·), failed, skipped,
          passed.length + failed.length + skipped.length⟩
        { repo.save data (.approve holder
            (.approval holder.fingerprint approvedAt actor evidence)) with holder := none }
    | _, _ => { repo with holder := none }
  | .unlocks => { repo with holder := none }
  | .revokes path reason revokedAt actor =>
    match repo.holder, repo.work with
    | none, some data =>
      if strip reason = [] then repo
      else
        let actor := if actor = [] then "operator".ascii else actor
        repo.save data (.revoke path (tombstone reason revokedAt actor (data path)))
    | _, _ => repo
  | .edits path content => { repo with templates := repo.templates.edit path content }
  | .damages => { repo with work := none }
  | .stages => { repo with staged := repo.work }
  | .commits => { repo with head := repo.staged }

/-! ### The gate -/

/-- `_effective`: the record the gate judges, none where it has none to judge. -/
def effective (repo : Repo) (path : Str) : Option Record := do
  let work ← repo.work
  let head ← repo.head
  match work path with
  | some (.approval fingerprint approvedAt actor evidence) =>
    if head path = some (.approval fingerprint approvedAt actor evidence) then work path else none
  | other => other

def isApproved (repo : Repo) (path : Str) : Bool :=
  match repo.effective path with
  | some (.approval record _ _ _) =>
    record.scheme = fingerprintScheme &&
      record.fingerprint = (repo.fingerprint sha256 path).fingerprint
  | _ => false

def newest (changes : List Change) (path : Str) : Option Change :=
  (changes.filter (fun change => change.path = path)).getLast?

/-- No revocation of the path is among the changes since `begun`. -/
def NotRevokedSince (changes : List Change) (begun : Nat) (path : Str) : Prop :=
  ∀ change ∈ changes.drop begun, change.revokes ≠ some path

instance (changes : List Change) (begun : Nat) (path : Str) :
    Decidable (NotRevokedSince changes begun path) :=
  inferInstanceAs (Decidable (∀ _ ∈ _, _))

/-- Every file a validation read is in the closure and reads now as it read it. -/
def ReadAsNow (templates : Templates) (path : Str) (reads : List (Str × Option Str)) : Prop :=
  reads ⊆ closureFiles templates path

instance (templates : Templates) (path : Str) (reads : List (Str × Option Str)) :
    Decidable (ReadAsNow templates path reads) :=
  inferInstanceAs (Decidable (∀ _ ∈ _, _))

def Right (repo : Repo) (path : Str) : Option Change → Prop
  | some (.approve holder record) =>
    ReadAsNow repo.templates path holder.reads ∧
      repo.head.bind (fun head => head path) = some record ∧
      NotRevokedSince repo.changes holder.begun path
  | _ => False

instance (repo : Repo) (path : Str) : ∀ change, Decidable (repo.Right path change)
  | some (.approve _ _) => inferInstanceAs (Decidable (_ ∧ _))
  | some (.revoke _ _) | none => isFalse id

/-- The newest change of the template is an approve that validated it as it is now, that
record is committed, and nobody revoked it since that approve began to validate. -/
def RightlyApproved (repo : Repo) (path : Str) : Prop := repo.Right path (newest repo.changes path)

instance (repo : Repo) (path : Str) : Decidable (repo.RightlyApproved path) :=
  inferInstanceAs (Decidable (repo.Right path _))

/-! ### When the steps are in time -/

def Apart (path : Str) (files other : List (Str × Option Str)) : Prop :=
  (fingerprintOf sha256 path files).fingerprint = (fingerprintOf sha256 path other).fingerprint →
    files = other

instance (path : Str) (files other : List (Str × Option Str)) :
    Decidable (Apart sha256 path files other) :=
  inferInstanceAs (Decidable (_ → _))

/-- The approves that are the newest change of their template. -/
def standing (repo : Repo) : List Holder :=
  repo.changes.filterMap (fun change =>
    match newest repo.changes change.path with
    | some (.approve holder _) => some holder
    | _ => none)

/-- An approve that takes the lock validated what it fingerprinted and was not revoked
meanwhile; and no closure has the fingerprint of another that was approved. -/
def InTime (repo : Repo) : Act → Prop
  | .locks place =>
    ∀ call ∈ repo.calls[place]?, ∀ begun ∈ call.begun,
      (repo.fingerprint sha256 call.path).fingerprint = call.before.fingerprint →
        ReadAsNow repo.templates call.path call.reads ∧ NotRevokedSince repo.changes begun call.path
  | .saves _ _ _ _ _ =>
    ∀ holder ∈ repo.holder,
      Apart sha256 holder.path (closureFiles repo.templates holder.path) holder.files
  | .edits path content =>
    ∀ holder ∈ repo.standing,
      Apart sha256 holder.path (closureFiles (repo.templates.edit path content) holder.path)
        holder.files
  | _ => True

instance (repo : Repo) : ∀ act, Decidable (repo.InTime sha256 act)
  | .locks place => inferInstanceAs (Decidable (∀ call ∈ repo.calls[place]?, _))
  | .saves _ _ _ _ _ => inferInstanceAs (Decidable (∀ holder ∈ repo.holder, _))
  | .edits _ _ => inferInstanceAs (Decidable (∀ holder ∈ repo.standing, _))
  | .begins _ _ | .validates _ | .reads _ _ | .ends _ | .unlocks | .revokes _ _ _ _ | .damages
  | .stages | .commits => isTrue trivial

end Repo

end Nmas.Nsot.Approval
