import Mathlib.Data.List.Dedup
import Nmas.Records.Table

/-!
Contract: which moves of a line store lose, double or reorder no line.

Owns: the one log behind the two backends, what every stage of a move keeps of
it, and the run in which every step is in time.

A line written while `_back` has it both in the file and in the table is counted
in the file.
-/

namespace Nmas.Records.Store

open Nmas.Text List
open Nmas.Log.Appends (Account ReadOnce Before returnedOf)
open Nmas.Log.Machine (run Along)
open Function

variable {site : Site} {store next : Store} {network : Str} {call : Call}

/-- The network whose rows are in its file already. -/
def written : Option Stage → Option Str
  | some (.deleting network _ _) => some network
  | _ => none

def tail (store : Store) (network : Str) : List Line :=
  if written store.stage = some network then [] else (store.sinceRows network).map Row.line

/-- A network's log: its file, and what was written to the table since. -/
def log (store : Store) (network : Str) : List Line := store.lines network ++ store.tail network

def account (store : Store) : Account Str Str Backend where
  log := store.log
  calls := store.calls
  returned := store.returned
  next := store.nextAppend

def CoveredAt (store : Store) (network : Str) : Prop :=
  (store.copiedRows network).length = (store.lines network).length

/-- No line is in the table alone but those of `left`. -/
def SinceIn (store : Store) (left : List Str) : Prop :=
  ∀ network ∉ left, store.sinceRows network = []

def StageSound (site : Site) (store : Store) : Option Stage → Prop
  | none =>
    (store.backend = .file ∧ store.SinceIn []) ∨
      (store.backend = .postgres ∧ ∀ network, store.CoveredAt network)
  | some (.list (.copy false)) | some (.each (.copy false) _) | some (.switch .postgres) =>
    store.backend = .file ∧ store.SinceIn []
  | some (.copying false network texts _) =>
    store.backend = .file ∧ store.SinceIn [] ∧ texts <+: store.lines network
  | some (.copying true network texts _) =>
    store.backend = .postgres ∧ texts <+: store.lines network
  | some (.list (.copy true)) | some (.each (.copy true) _) | some (.list (.check _))
  | some (.list .writable) | some (.each .writable _) | some (.list .exported) =>
    store.backend = .postgres
  | some (.each (.check ok) todo) =>
    store.backend = .postgres ∧ (ok → ∀ network ∉ todo,
      store.CoveredAt network ∨ ∃ other ∈ todo, ¬ store.agrees site other)
  | some (.list .readOnly) | some (.each .readOnly _) =>
    store.backend = .postgres ∧ ∀ network, store.CoveredAt network
  | some (.each .exported todo) =>
    store.backend = .postgres ∧ todo.Nodup ∧ store.SinceIn todo
  | some (.exporting network got todo) =>
    store.backend = .postgres ∧ (network :: todo).Nodup ∧ store.SinceIn (network :: todo) ∧
      got = store.sinceRows network
  | some (.deleting network got todo) =>
    store.backend = .postgres ∧ (network :: todo).Nodup ∧ store.SinceIn (network :: todo) ∧
      got = store.sinceRows network ∧
      (store.copiedRows network).length + got.length ≤ (store.lines network).length
  | some (.switch .file) => store.backend = .postgres ∧ store.SinceIn []

/-- What every step in time keeps. -/
structure Sound (site : Site) (store : Store) : Prop where
  kept : store.account.Kept
  consistent : store.Consistent
  /-- An append that chose the file follows lines of the file alone. -/
  fileFollows : ∀ call ∈ store.calls, call.route = .file → call.earlier ⊆ store.lines call.line.key
  stage : StageSound site store store.stage

theorem sound_new (site : Site) : Sound site new where
  kept :=
    { nodup := fun _ => nodup_nil
      own := fun _ _ member => (not_mem_nil member).elim
      begun := fun _ _ member => (not_mem_nil member).elim
      callsBegun := fun _ member => (not_mem_nil member).elim
      callsApart := nodup_nil
      notLanded := fun _ member => (not_mem_nil member).elim
      follows := fun _ member => (not_mem_nil member).elim
      landed := fun _ member => (not_mem_nil member).elim
      inOrder := fun _ member => (not_mem_nil member).elim }
  consistent :=
    { named := fun _ _ => rfl
      copied := fun _ => nil_prefix
      inSeq := List.Pairwise.nil
      seqTaken := fun _ member => (not_mem_nil member).elim }
  fileFollows _ member := (not_mem_nil member).elim
  stage := .inl ⟨rfl, fun _ _ => rfl⟩

/-! ### Steps that write no line -/

theorem Sound.moved (sound : Sound site store) {backend : Backend} {readOnly : Str → Bool}
    {stage : Option Stage} (sameWritten : written stage = written store.stage)
    (isSound : StageSound site
      { store with backend := backend, readOnly := readOnly, stage := stage } stage) :
    Sound site { store with backend := backend, readOnly := readOnly, stage := stage } where
  kept := by
    have sameAccount :
        account { store with backend := backend, readOnly := readOnly, stage := stage } =
          store.account := by
      unfold account log tail
      simp only [sameWritten]
      rfl
    rw [sameAccount]
    exact sound.kept
  consistent := ⟨sound.consistent.named, sound.consistent.copied, sound.consistent.inSeq,
    sound.consistent.seqTaken⟩
  fileFollows := sound.fileFollows
  stage := isSound

theorem Sound.enter (sound : Sound site store) {stage : Option Stage}
    (sameWritten : written stage = written store.stage)
    (isSound : StageSound site (store.enter stage) stage) : Sound site (store.enter stage) :=
  sound.moved sameWritten isSound

theorem Sound.sinceIn_of_file (sound : Sound site store) (isFile : store.backend = .file) :
    store.SinceIn [] ∧ written store.stage = none := by
  have isSound := sound.stage
  rcases isStage : store.stage with - | stage
  · rw [isStage] at isSound
    rcases isSound with ⟨-, noSince⟩ | ⟨isPostgres, -⟩
    · exact ⟨noSince, rfl⟩
    · rw [isFile] at isPostgres
      cases isPostgres
  · rw [isStage] at isSound
    unfold StageSound at isSound
    split at isSound <;> simp_all [written]

theorem Sound.coveredAt (sound : Sound site store) (covered : store.Covered) (network : Str) :
    store.CoveredAt network := by
  by_cases isNamed : network ∈ store.networks
  · exact covered network isNamed
  · have noLines := sound.consistent.named network isNamed
    have noCopies := sound.consistent.length_le network
    unfold CoveredAt
    rw [noLines] at noCopies ⊢
    exact Nat.le_antisymm noCopies (Nat.zero_le _)

theorem Sound.keptAs (sound : Sound site store)
    (isLog : ∀ network, next.log network = store.log network)
    (sameCalls : next.calls = store.calls) (sameReturned : next.returned = store.returned)
    (sameNext : next.nextAppend = store.nextAppend) : next.account.Kept := by
  have sameAccount : next.account = store.account := by
    unfold account
    rw [funext isLog, sameCalls, sameReturned, sameNext]
  rw [sameAccount]
  exact sound.kept

theorem Sound.ends (sound : Sound site store) (whole : store.EndsWhole) :
    Sound site (store.enter none) where
  kept := by
    have isLog : ∀ network, (store.enter none).log network = store.log network := by
      intro network
      change store.lines network ++ (store.sinceRows network).map Row.line =
        store.lines network ++ store.tail network
      unfold tail
      split_ifs with isWritten
      · -- The file has all the rows of `got`, so a covered file means there were none.
        have isSound := sound.stage
        unfold written at isWritten
        split at isWritten
        · rename_i got todo isStage
          cases isWritten
          rw [isStage] at isSound
          obtain ⟨isPostgres, -, -, rfl, isLong⟩ := isSound
          have isCovered := sound.coveredAt (whole isPostgres) network
          unfold CoveredAt at isCovered
          have noRows : (store.sinceRows network).length = 0 := by omega
          rw [length_eq_zero_iff.mp noRows]
          rfl
        · cases isWritten
      · rfl
    exact sound.keptAs isLog rfl rfl rfl
  consistent := ⟨sound.consistent.named, sound.consistent.copied, sound.consistent.inSeq,
    sound.consistent.seqTaken⟩
  fileFollows := sound.fileFollows
  stage := by
    rcases isBackend : store.backend with - | -
    · exact .inl ⟨isBackend, (sound.sinceIn_of_file isBackend).1⟩
    · exact .inr ⟨isBackend, sound.coveredAt (whole isBackend)⟩

/-! ### Steps that move lines -/

theorem log_of_written (isWritten : written store.stage ≠ some network) :
    store.log network = store.lines network ++ (store.sinceRows network).map Row.line := by
  unfold log tail
  rw [if_neg isWritten]

theorem log_of_deleting (isWritten : written store.stage = some network) :
    store.log network = store.lines network := by
  unfold log tail
  rw [if_pos isWritten, append_nil]

theorem Sound.copies {again : Bool} {texts : List Line} {todo : List Str}
    (sound : Sound site store) (isStage : store.stage = some (.copying again network texts todo))
    (copied : store.copy site network texts = some next) :
    Sound site (next.enter (some (.each (.copy again) todo))) := by
  have isSound := sound.stage
  rw [isStage] at isSound
  have isRead : texts <+: store.lines network := by
    cases again
    · exact isSound.2.2
    · exact isSound.2
  have own : ∀ line ∈ texts, line.key = network := by
    intro line member
    exact sound.kept.own network line (mem_append_left _ (isRead.subset member))
  have isConsistent := sound.consistent.copy own isRead copied
  rw [copy_eq copied] at isConsistent ⊢
  have sameSince (other : Str) :
      (store.insertAll (store.missing network texts)).sinceRows other = store.sinceRows other :=
    sinceRows_insertAll
  rw [insertAll_eq] at isConsistent sameSince ⊢
  refine ⟨?_, ⟨isConsistent.named, isConsistent.copied, isConsistent.inSeq, isConsistent.seqTaken⟩,
    sound.fileFollows, ?_⟩
  · refine sound.keptAs (fun other => ?_) rfl rfl rfl
    rw [@log_of_written store other (by simp [isStage, written])]
    exact congrArg (fun rows => store.lines other ++ rows.map Row.line) (sameSince other)
  · cases again
    · exact ⟨isSound.1, fun other absent => (sameSince other).trans (isSound.2.1 other absent)⟩
    · exact isSound.1

theorem Sound.exports {got : List Row} {todo : List Str} (sound : Sound site store)
    (isStage : store.stage = some (.exporting network got todo))
    (isWritten : store.appendTo site network (got.map Row.line) = some next) :
    Sound site (next.enter (some (.deleting network got todo))) := by
  have isSound := sound.stage
  rw [isStage] at isSound
  obtain ⟨isPostgres, apart, since, rfl⟩ := isSound
  have isConsistent := sound.consistent.appendTo isWritten
  have grown := prefix_lines_of_appendTo isWritten
  have isNext := appendTo_eq isWritten
  have sameSince : ∀ other, next.sinceRows other = store.sinceRows other := by
    intro other
    rw [isNext]
    rfl
  have notWritten (other : Str) : written store.stage ≠ some other := by
    simp [isStage, written]
  refine ⟨?_, ⟨isConsistent.named, isConsistent.copied, isConsistent.inSeq, isConsistent.seqTaken⟩,
    fun call member isFile => ?_, ?_⟩
  · refine sound.keptAs (fun other => ?_) (by rw [isNext]; rfl) (by rw [isNext]; rfl)
      (by rw [isNext]; rfl)
    rw [log_of_written (notWritten other)]
    by_cases isThis : other = network
    · subst isThis
      refine (log_of_deleting rfl).trans ?_
      rw [isNext]
      exact update_self _ _ _
    · refine (log_of_written ?_).trans ?_
      · simpa [written, Store.enter] using fun same => isThis same.symm
      · rw [isNext]
        exact congrArg (fun lines => lines ++ (store.sinceRows other).map Row.line)
          (update_of_ne isThis _ _)
  · have wasCall : call ∈ store.calls := by
      rw [isNext] at member
      exact member
    exact List.Subset.trans (sound.fileFollows call wasCall isFile) (grown _).subset
  · refine ⟨?_, apart, fun other absent => (sameSince other).trans (since other absent),
      (sameSince network).symm, ?_⟩
    · rw [isNext]
      exact isPostgres
    · have wasShort := sound.consistent.length_le network
      rw [isNext]
      change (store.copiedRows network).length + (store.sinceRows network).length ≤
        (update store.lines network _ network).length
      rw [update_self, length_append, length_map]
      omega

theorem Sound.deletes {got : List Row} {todo : List Str} (sound : Sound site store)
    (isStage : store.stage = some (.deleting network got todo)) :
    Sound site ((store.delete network got).enter (some (.each .exported todo))) := by
  have isSound := sound.stage
  rw [isStage] at isSound
  obtain ⟨isPostgres, apart, since, rfl, -⟩ := isSound
  have isConsistent := sound.consistent.delete network
  refine ⟨?_, ⟨isConsistent.named, isConsistent.copied, isConsistent.inSeq, isConsistent.seqTaken⟩,
    sound.fileFollows, isPostgres, (nodup_cons.mp apart).2, fun other absent => ?_⟩
  · refine sound.keptAs (fun other => ?_) rfl rfl rfl
    refine (log_of_written (by simp [written, Store.enter])).trans ?_
    by_cases isThis : other = network
    · subst isThis
      rw [log_of_deleting (by simp [isStage, written])]
      change store.lines other ++ ((store.delete other _).sinceRows other).map Row.line = _
      rw [sinceRows_delete_self]
      exact append_nil _
    · rw [log_of_written (by simpa [isStage, written] using fun same => isThis same.symm)]
      exact congrArg (fun rows => store.lines other ++ rows.map Row.line)
        (sinceRows_delete_of_ne isThis)
  · by_cases isThis : other = network
    · subst isThis
      exact sinceRows_delete_self
    · refine (sinceRows_delete_of_ne isThis).trans (since other ?_)
      exact not_mem_cons_of_ne_of_not_mem isThis absent

/-! ### The steps of the operation -/

theorem Sound.coveredAt_of_absent (sound : Sound site store) (absent : network ∉ store.networks) :
    store.CoveredAt network := by
  have noLines := sound.consistent.named network absent
  have noCopies := sound.consistent.length_le network
  unfold CoveredAt
  rw [noLines] at noCopies ⊢
  exact Nat.le_antisymm noCopies (Nat.zero_le _)

theorem mem_listed_check {ok : Bool} (isNamed : network ∈ store.networks) :
    network ∈ store.listed (.check ok) := by
  simp [listed, mem_insertionSort, isNamed]

theorem sinceIn_listed : store.SinceIn (store.listed .exported) := by
  intro network absent
  unfold sinceRows
  rw [filter_eq_nil_iff]
  rintro row member isSince
  rw [decide_eq_true_eq] at isSince
  apply absent
  unfold listed
  rw [mem_dedup, ← isSince.1]
  exact mem_map_of_mem (mem_filter.mpr ⟨member, decide_eq_true isSince.2⟩)

theorem Sound.lists {pass : Pass} (sound : Sound site store)
    (isStage : store.stage = some (.list pass)) :
    Sound site (store.enter (some (.each pass (store.listed pass)))) := by
  have isSound := sound.stage
  rw [isStage] at isSound
  refine sound.enter (by simp [isStage, written]) ?_
  rcases pass with (- | -) | ok | - | - | -
  · exact isSound
  · exact isSound
  · refine ⟨isSound, fun _ network absent => .inl ?_⟩
    exact sound.coveredAt_of_absent (fun isNamed => absent (mem_listed_check isNamed))
  · exact isSound
  · exact isSound
  · exact ⟨isSound, nodup_dedup _, sinceIn_listed⟩

theorem Sound.passes {pass : Pass} (sound : Sound site store)
    (isStage : store.stage = some (.each pass [])) : Sound site (store.enter pass.after) := by
  have isSound := sound.stage
  rw [isStage] at isSound
  refine sound.enter ?_ ?_
  · rw [isStage]
    rcases pass with (- | -) | (- | -) | - | - | - <;> rfl
  · rcases pass with (- | -) | (- | -) | - | - | -
    · exact isSound
    · exact isSound
    · exact isSound.1
    · refine ⟨isSound.1, fun network => ?_⟩
      rcases isSound.2 rfl network (not_mem_nil) with isCovered | ⟨_, member, -⟩
      · exact isCovered
      · cases member
    · exact .inr isSound
    · exact isSound
    · exact ⟨isSound.1, isSound.2.2⟩

theorem Sound.checks {ok : Bool} {todo : List Str} (sound : Sound site store)
    (isStage : store.stage = some (.each (.check ok) (network :: todo))) :
    Sound site (store.enter (some (.each (.check (ok && store.agrees site network)) todo))) := by
  have isSound := sound.stage
  rw [isStage] at isSound
  refine sound.enter (by simp [isStage, written]) ⟨isSound.1, fun stillOk other absent => ?_⟩
  rw [Bool.and_eq_true] at stillOk
  by_cases isThis : other = network
  · subst isThis
    exact .inl (sound.consistent.length_eq_of_agrees stillOk.2)
  · rcases isSound.2 stillOk.1 other (not_mem_cons_of_ne_of_not_mem isThis absent) with
      isCovered | ⟨failing, member, disagrees⟩
    · exact .inl isCovered
    · rcases mem_cons.mp member with rfl | later
      · exact absurd stillOk.2 disagrees
      · exact .inr ⟨failing, later, disagrees⟩

/-- **Every step of an operation that is in time keeps the store sound.** -/
theorem Sound.work {stage : Stage} (sound : Sound site store) (isStage : store.stage = some stage)
    (inTime : store.InTime site .works) : Sound site (store.work site stage) := by
  have isSound := sound.stage
  have noneWritten (notDeleting : ∀ network got todo, stage ≠ .deleting network got todo) :
      written store.stage = none := by
    rw [isStage]
    cases stage <;> first | rfl | exact absurd rfl (notDeleting _ _ _)
  rw [isStage] at isSound
  cases stage with
  | list pass => exact sound.lists isStage
  | each pass todo =>
    cases todo with
    | nil => exact sound.passes isStage
    | cons network todo =>
      have isNone : written store.stage = none := noneWritten (fun _ _ _ => nofun)
      rcases pass with again | ok | - | - | -
      · refine sound.enter isNone.symm ?_
        cases again
        · exact ⟨isSound.1, isSound.2, prefix_refl _⟩
        · exact ⟨isSound, prefix_refl _⟩
      · exact sound.checks isStage
      · exact sound.moved isNone.symm isSound
      · exact sound.moved isNone.symm isSound
      · exact sound.enter isNone.symm ⟨isSound.1, isSound.2.1, isSound.2.2, rfl⟩
  | copying again network texts todo =>
    rw [Store.work]
    split
    · rename_i copied isCopied
      exact sound.copies isStage isCopied
    · refine sound.enter ?_ ?_
      · rw [noneWritten (fun _ _ _ => nofun)]
        cases again <;> rfl
      · cases again
        · exact .inl ⟨isSound.1, isSound.2.1⟩
        · exact isSound.1
  | exporting network got todo =>
    rw [Store.work]
    split
    · rename_i isWritten
      exact sound.exports isStage isWritten
    · rename_i isRefused
      apply sound.ends
      apply inTime
      unfold exportRefused
      rw [isStage]
      unfold appendTo at isRefused
      by_contra isOpen
      rw [if_neg (by simpa using isOpen)] at isRefused
      cases isRefused
  | deleting network got todo => exact sound.deletes isStage
  | switch backend =>
    cases backend with
    | file => exact sound.moved (noneWritten (fun _ _ _ => nofun)).symm (.inl ⟨rfl, isSound.2⟩)
    | postgres => exact sound.moved (noneWritten (fun _ _ _ => nofun)).symm rfl

theorem Sound.stumble {stage : Stage} (sound : Sound site store)
    (isStage : store.stage = some stage) : Sound site (store.stumble stage) := by
  have isSound := sound.stage
  rw [isStage] at isSound
  unfold Store.stumble
  split
  all_goals first
    | exact sound
    | exact sound.enter (by rw [isStage]; rfl) isSound
    | exact sound.enter (by rw [isStage]; rfl) isSound.1

/-! ### The appends -/

theorem agrees_appendTo {texts : List Line} {other : Str}
    (isWritten : store.appendTo site network texts = some next) (isOther : other ≠ network) :
    next.agrees site other = store.agrees site other := by
  rw [appendTo_eq isWritten]
  unfold agrees
  simp only [update_of_ne isOther]
  rfl

theorem Consistent.not_agrees_appendTo {line : Line} (consistent : store.Consistent)
    (isWritten : store.appendTo site network [line] = some next) :
    ¬ next.agrees site network := by
  intro agrees
  have isCovered := (consistent.appendTo isWritten).length_eq_of_agrees agrees
  have wasShort := consistent.length_le network
  rw [appendTo_eq isWritten] at isCovered
  change (store.copiedRows network).length =
    (update store.lines network _ network).length at isCovered
  rw [update_self, length_append, length_singleton] at isCovered
  omega

theorem Consistent.fails_appendTo {line : Line} {todo : List Str} (consistent : store.Consistent)
    (isWritten : store.appendTo site network [line] = some next)
    (looks : network ∈ todo ∨ ∃ other ∈ todo, store.agrees site other = false) :
    ∃ other ∈ todo, ¬ next.agrees site other := by
  rcases looks with isTodo | ⟨other, isTodo, disagrees⟩
  · exact ⟨network, isTodo, consistent.not_agrees_appendTo isWritten⟩
  · refine ⟨other, isTodo, ?_⟩
    by_cases isThis : other = network
    · rw [isThis]
      exact consistent.not_agrees_appendTo isWritten
    · rw [agrees_appendTo isWritten isThis, disagrees]
      exact Bool.false_ne_true

theorem Sound.stage_appendTo {line : Line} (sound : Sound site store)
    (isWritten : store.appendTo site network [line] = some next)
    (inTime : store.backend = .file ∨ store.looksAtFile site network) :
    StageSound site next next.stage := by
  have isSound := sound.stage
  have grown := prefix_lines_of_appendTo isWritten
  have isNext := appendTo_eq isWritten
  have sameStage : next.stage = store.stage := by rw [isNext]
  have sameBackend : next.backend = store.backend := by rw [isNext]
  have sameSince : ∀ other, next.sinceRows other = store.sinceRows other := by
    intro other
    rw [isNext]
    rfl
  have sameCopied : ∀ other, next.copiedRows other = store.copiedRows other := by
    intro other
    rw [isNext]
    rfl
  have sameLines : ∀ other ≠ network, next.lines other = store.lines other := by
    intro other isOther
    rw [isNext]
    exact update_of_ne isOther _ _
  have sinceIn : ∀ left, store.SinceIn left → next.SinceIn left :=
    fun left since other absent => (sameSince other).trans (since other absent)
  rw [sameStage]
  rcases isStage : store.stage with - | stage
  · rw [isStage] at isSound
    have isFile : store.backend = .file := by
      rcases inTime with isFile | looks
      · exact isFile
      · unfold looksAtFile at looks
        rw [isStage] at looks
        cases looks
    rcases isSound with ⟨-, since⟩ | ⟨isPostgres, -⟩
    · exact .inl ⟨sameBackend.trans isFile, sinceIn _ since⟩
    · rw [isFile] at isPostgres
      cases isPostgres
  · rw [isStage] at isSound
    have onDatabase (isPostgres : store.backend = .postgres) : next.backend = .postgres :=
      sameBackend.trans isPostgres
    have onFile (isFile : store.backend = .file) : next.backend = .file := sameBackend.trans isFile
    have looks (isPostgres : store.backend = .postgres) : store.looksAtFile site network := by
      rcases inTime with isFile | looks
      · rw [isPostgres] at isFile
        cases isFile
      · exact looks
    unfold looksAtFile at looks
    rw [isStage] at looks
    cases stage with
    | list pass =>
      rcases pass with (- | -) | ok | - | - | -
      · exact ⟨onFile isSound.1, sinceIn _ isSound.2⟩
      · exact onDatabase isSound
      · exact onDatabase isSound
      · cases looks isSound.1
      · exact onDatabase isSound
      · exact onDatabase isSound
    | each pass todo =>
      rcases pass with (- | -) | ok | - | - | -
      · exact ⟨onFile isSound.1, sinceIn _ isSound.2⟩
      · exact onDatabase isSound
      · refine ⟨onDatabase isSound.1, fun stillOk other absent => .inr ?_⟩
        exact sound.consistent.fails_appendTo isWritten (by simpa [stillOk] using looks isSound.1)
      · cases looks isSound.1
      · exact onDatabase isSound
      · exact ⟨onDatabase isSound.1, isSound.2.1, sinceIn _ isSound.2.2⟩
    | copying again name texts todo =>
      cases again
      · exact ⟨onFile isSound.1, sinceIn _ isSound.2.1, isSound.2.2.trans (grown name)⟩
      · exact ⟨onDatabase isSound.1, isSound.2.trans (grown name)⟩
    | exporting name got todo =>
      obtain ⟨isPostgres, apart, since, isGot⟩ := isSound
      exact ⟨onDatabase isPostgres, apart, sinceIn _ since, isGot.trans (sameSince name).symm⟩
    | deleting name got todo =>
      obtain ⟨isPostgres, apart, since, isGot, isLong⟩ := isSound
      refine ⟨onDatabase isPostgres, apart, sinceIn _ since, isGot.trans (sameSince name).symm, ?_⟩
      rw [sameCopied]
      exact Nat.le_trans isLong (grown name).length_le
    | switch backend =>
      cases backend
      · exact ⟨onDatabase isSound.1, sinceIn _ isSound.2⟩
      · exact ⟨onFile isSound.1, sinceIn _ isSound.2⟩

theorem Sound.lands_file {place : Nat} (sound : Sound site store)
    (isCall : store.calls[place]? = some call) (isFile : call.route = .file)
    (isWritten : store.appendTo site call.line.key [call.line] = some next)
    (inTime : store.backend = .file ∨ store.looksAtFile site call.line.key) (returns : Bool) :
    Sound site { next with
      calls := store.calls.eraseIdx place
      returned := if returns then store.returned ++ [call] else store.returned } where
  kept := by
    have isBehind := sound.fileFollows call (mem_of_getElem? isCall) isFile
    have isSplit : store.account.log call.line.key =
        store.lines call.line.key ++ store.tail call.line.key := rfl
    have landed := sound.kept.lands isCall isSplit isBehind returns
    have isAccount : account { next with
        calls := store.calls.eraseIdx place
        returned := if returns then store.returned ++ [call] else store.returned } =
        store.account.lands place call (store.lines call.line.key) (store.tail call.line.key)
          returns := by
      unfold account Account.lands
      rw [appendTo_eq isWritten]
      congr 1
      funext name
      by_cases isThis : name = call.line.key
      · subst isThis
        rw [update_self]
        change update store.lines _ _ call.line.key ++ store.tail call.line.key = _
        rw [update_self, append_assoc]
        rfl
      · rw [update_of_ne isThis]
        change update store.lines _ _ name ++ store.tail name = _
        rw [update_of_ne isThis]
        rfl
    rw [isAccount]
    exact landed
  consistent := by
    have isConsistent := sound.consistent.appendTo isWritten
    exact ⟨isConsistent.named, isConsistent.copied, isConsistent.inSeq, isConsistent.seqTaken⟩
  fileFollows other member isOther :=
    List.Subset.trans (sound.fileFollows other (mem_of_mem_eraseIdx member) isOther)
      (prefix_lines_of_appendTo isWritten _).subset
  stage := by
    have isSound := sound.stage_appendTo isWritten inTime
    exact isSound

theorem Sound.stage_insert {line : Line} (sound : Sound site store)
    (isPostgres : store.backend = .postgres) (looks : store.looksAtTable line.key) :
    StageSound site (store.insert line none) store.stage := by
  have isSound := sound.stage
  have sinceIn : ∀ left, line.key ∈ left → store.SinceIn left →
      (store.insert line none).SinceIn left := by
    intro left isLeft since other absent
    have isOther : line.key ≠ other := by
      rintro rfl
      exact absent isLeft
    rw [sinceRows_insert_none, if_neg isOther, append_nil]
    exact since other absent
  have sameSince : ∀ other ≠ line.key,
      (store.insert line none).sinceRows other = store.sinceRows other := by
    intro other isOther
    rw [sinceRows_insert_none, if_neg isOther.symm, append_nil]
  have covered (name : Str) (isCovered : store.CoveredAt name) :
      (store.insert line none).CoveredAt name := by
    unfold CoveredAt
    rw [copiedRows_insert_none]
    exact isCovered
  have sameAgrees (name : Str) :
      (store.insert line none).agrees site name = store.agrees site name := by
    unfold agrees copiedAt copiedLines
    rw [copiedRows_insert_none]
    rfl
  have notFile : store.backend ≠ .file := by
    rw [isPostgres]
    nofun
  unfold looksAtTable at looks
  rcases isStage : store.stage with - | stage
  · rw [isStage] at isSound
    rcases isSound with ⟨isFile, -⟩ | ⟨-, isCovered⟩
    · exact absurd isFile notFile
    · exact .inr ⟨isPostgres, fun name => covered name (isCovered name)⟩
  · rw [isStage] at isSound looks
    cases stage with
    | list pass =>
      rcases pass with (- | -) | ok | - | - | -
      · exact absurd isSound.1 notFile
      · exact isPostgres
      · exact isPostgres
      · exact ⟨isPostgres, fun name => covered name (isSound.2 name)⟩
      · exact isPostgres
      · exact isPostgres
    | each pass todo =>
      rcases pass with (- | -) | ok | - | - | -
      · exact absurd isSound.1 notFile
      · exact isPostgres
      · refine ⟨isPostgres, fun stillOk name absent => ?_⟩
        rcases isSound.2 stillOk name absent with isCovered | ⟨failing, member, disagrees⟩
        · exact .inl (covered name isCovered)
        · rw [← sameAgrees] at disagrees
          exact .inr ⟨failing, member, disagrees⟩
      · exact ⟨isPostgres, fun name => covered name (isSound.2 name)⟩
      · exact isPostgres
      · exact ⟨isPostgres, isSound.2.1, sinceIn _ (of_decide_eq_true looks) isSound.2.2⟩
    | copying again name texts todo =>
      cases again
      · exact absurd isSound.1 notFile
      · exact ⟨isPostgres, isSound.2⟩
    | exporting name got todo =>
      obtain ⟨-, apart, since, isGot⟩ := isSound
      have isTodo : line.key ∈ todo := of_decide_eq_true looks
      have isOther : name ≠ line.key := by
        rintro rfl
        exact (nodup_cons.mp apart).1 isTodo
      exact ⟨isPostgres, apart, sinceIn _ (.tail _ isTodo) since,
        isGot.trans (sameSince name isOther).symm⟩
    | deleting name got todo =>
      obtain ⟨-, apart, since, isGot, isLong⟩ := isSound
      have isTodo : line.key ∈ todo := of_decide_eq_true looks
      have isOther : name ≠ line.key := by
        rintro rfl
        exact (nodup_cons.mp apart).1 isTodo
      refine ⟨isPostgres, apart, sinceIn _ (.tail _ isTodo) since,
        isGot.trans (sameSince name isOther).symm, ?_⟩
      rw [copiedRows_insert_none]
      exact isLong
    | switch backend =>
      cases backend
      · cases looks
      · exact absurd isSound.1 notFile

theorem Sound.notWritten_of_looks (sound : Sound site store)
    (looks : store.looksAtTable network) : written store.stage ≠ some network := by
  intro isWritten
  have isSound := sound.stage
  unfold written at isWritten
  split at isWritten
  · rename_i name got todo isStage
    cases isWritten
    rw [isStage] at isSound
    unfold looksAtTable at looks
    rw [isStage] at looks
    exact (nodup_cons.mp isSound.2.1).1 (of_decide_eq_true looks)
  · cases isWritten

theorem Sound.lands_table {place : Nat} (sound : Sound site store)
    (isCall : store.calls[place]? = some call) (isPostgres : store.backend = .postgres)
    (looks : store.looksAtTable call.line.key) (returns : Bool) :
    Sound site { store.insert call.line none with
      calls := store.calls.eraseIdx place
      returned := if returns then store.returned ++ [call] else store.returned } where
  kept := by
    have isBehind := sound.kept.follows call (mem_of_getElem? isCall)
    have isSplit : store.account.log call.line.key = store.log call.line.key ++ [] :=
      (append_nil _).symm
    have landed := sound.kept.lands isCall isSplit isBehind returns
    have notWritten := sound.notWritten_of_looks looks
    have isAccount : account { store.insert call.line none with
        calls := store.calls.eraseIdx place
        returned := if returns then store.returned ++ [call] else store.returned } =
        store.account.lands place call (store.log call.line.key) [] returns := by
      unfold account Account.lands
      congr 1
      funext name
      change store.lines name ++ (if written store.stage = some name then [] else
        ((store.insert call.line none).sinceRows name).map Row.line) = _
      rw [sinceRows_insert_none]
      by_cases isThis : name = call.line.key
      · subst isThis
        rw [update_self, if_neg notWritten, if_pos rfl, map_append,
          ← append_assoc, log_of_written notWritten]
        rfl
      · have isOther : ¬ call.line.key = name := fun same => isThis same.symm
        rw [update_of_ne isThis, if_neg isOther, append_nil]
        rfl
    rw [isAccount]
    exact landed
  consistent := by
    have isConsistent : (store.insert call.line none).Consistent := sound.consistent.insert_none
    exact ⟨isConsistent.named, isConsistent.copied, isConsistent.inSeq, isConsistent.seqTaken⟩
  fileFollows other member isOther :=
    sound.fileFollows other (mem_of_mem_eraseIdx member) isOther
  stage := sound.stage_insert isPostgres looks

/-! ### Runs -/

theorem Sound.fails (sound : Sound site store) (place : Nat) :
    Sound site { store with calls := store.calls.eraseIdx place } where
  kept := sound.kept.fails place
  consistent := ⟨sound.consistent.named, sound.consistent.copied, sound.consistent.inSeq,
    sound.consistent.seqTaken⟩
  fileFollows call member := sound.fileFollows call (mem_of_mem_eraseIdx member)
  stage := sound.stage

/-- **Every step in time keeps the store sound.** -/
theorem Sound.step (sound : Sound site store) (act : Act) (inTime : store.InTime site act) :
    Sound site (store.step site act) := by
  cases act with
  | begins network text =>
    refine ⟨sound.kept.begins network text store.backend, ?_, fun call member isFile => ?_,
      sound.stage⟩
    · exact ⟨sound.consistent.named, sound.consistent.copied, sound.consistent.inSeq,
        sound.consistent.seqTaken⟩
    · rcases mem_append.mp member with old | isNew
      · exact sound.fileFollows call old isFile
      · rw [mem_singleton.mp isNew] at isFile ⊢
        obtain ⟨since, notWritten⟩ := sound.sinceIn_of_file isFile
        intro line isEarlier
        have inLog := (sound.kept.begins network text store.backend).follows _
          (mem_append_right _ (.head _)) line isEarlier
        change line ∈ store.log network at inLog
        rw [log_of_written (by rw [notWritten]; nofun), since network not_mem_nil,
          map_nil, append_nil] at inLog
        exact inLog
  | lands place returns =>
    rw [Store.step]
    split
    · exact sound
    · rename_i call isCall
      obtain ⟨fileInTime, tableInTime⟩ := inTime call isCall
      split
      · exact sound.fails place
      · rename_i next isLanded
        unfold land at isLanded
        rcases isRoute : call.route with - | -
        · rw [isRoute] at isLanded
          refine sound.lands_file isCall isRoute isLanded ?_ returns
          rcases fileInTime isRoute with isFile | isRefused | looks
          · exact .inl isFile
          · unfold appendTo at isLanded
            rw [if_pos isRefused] at isLanded
            cases isLanded
          · exact .inr looks
        · rw [isRoute] at isLanded
          cases isLanded
          obtain ⟨isPostgres, looks⟩ := tableInTime isRoute
          exact sound.lands_table isCall isPostgres looks returns
  | fails place =>
    exact sound.fails place
  | move =>
    rw [Store.step]
    split
    · rename_i isFree
      obtain ⟨since, notWritten⟩ := sound.sinceIn_of_file isFree.2
      exact sound.enter notWritten.symm ⟨isFree.2, since⟩
    · exact sound
  | moveBack =>
    rw [Store.step]
    split
    · rename_i isFree
      rw [Option.isNone_iff_eq_none] at isFree
      exact sound.enter (by rw [isFree.1]; rfl) isFree.2
    · exact sound
  | works =>
    rw [Store.step]
    rcases isStage : store.stage with - | stage
    · exact sound
    · exact sound.work isStage inTime
  | stumbles =>
    rw [Store.step]
    rcases isStage : store.stage with - | stage
    · exact sound
    · exact sound.stumble isStage
  | dies => exact sound.ends inTime

theorem Sound.storeRows_eq (sound : Sound site store) (isIdle : store.stage = none) :
    store.storeRows network = store.log network := by
  have isSound := sound.stage
  rw [isIdle] at isSound
  rw [log_of_written (by rw [isIdle]; nofun)]
  unfold storeRows
  rcases isSound with ⟨isFile, since⟩ | ⟨isPostgres, isCovered⟩
  · rw [isFile, since network not_mem_nil]
    exact (append_nil _).symm
  · rw [isPostgres]
    unfold tableLines
    rw [sound.consistent.copiedLines_eq (isCovered network)]

theorem Sound.linesKept (sound : Sound site store) : store.LinesKept := by
  intro isIdle call member
  rw [sound.storeRows_eq (Option.isNone_iff_eq_none.mp isIdle)]
  exact sound.kept.readOnce member

/-- **Moves lose and double no line** in the runs in which every append's write lands before
the running operation's last look, and an operation is cut off only where nothing is between
the files and the table. -/
theorem moves_keep_lines (site : Site) (acts : List Act)
    (inTime : Along (step site) (InTime site) new acts) : (run (step site) new acts).LinesKept := by
  have sound : Sound site (run (step site) new acts) :=
    inTime.keeps (fun _ act sound isInTime => sound.step act isInTime) (sound_new site)
  exact sound.linesKept

/-- Processes that are not root, and a store whose rows are its lines. -/
def plainSite : Site := ⟨id, id, false⟩

/-- An append before a move, one while the move copies, one after it, and the move back. -/
def movedAndBack : List Act :=
  [.begins "lab".ascii "a".ascii, .lands 0 true, .begins "lab".ascii "b".ascii, .move] ++
    List.replicate 5 .works ++ [.lands 0 true] ++ List.replicate 10 .works ++
    [.begins "lab".ascii "c".ascii, .lands 0 true, .moveBack] ++ List.replicate 9 .works

theorem moved_and_back_kept :
    (run (step plainSite) new movedAndBack).LinesKept ∧
      ((run (step plainSite) new movedAndBack).storeRows "lab".ascii).map (·.text) =
        ["a".ascii, "b".ascii, "c".ascii] :=
  ⟨moves_keep_lines plainSite movedAndBack (by decide +kernel), by decide +kernel⟩

/-- An append reads the setting before a move of an empty store, and writes after its check. -/
def writtenLate : List Act :=
  [.begins "lab".ascii "a".ascii, .move] ++ List.replicate 7 .works ++ [.lands 0 true] ++
    List.replicate 3 .works

/-- The move is done, the line is in a file nothing reads. -/
theorem late_line_lost :
    (run (step plainSite) new writtenLate).stage.isNone = true ∧
      (run (step plainSite) new writtenLate).returned.length = 1 ∧
      (run (step plainSite) new writtenLate).storeRows "lab".ascii = [] ∧
      ¬ (run (step plainSite) new writtenLate).LinesKept := by
  decide +kernel

end Nmas.Records.Store
