import Nmas.Dhcp.Apply

/-!
Contract: a DHCP change that fails is undone.

Owns:
- what a call has to leave behind when it returns with an error and no outcome;
- the answers under which the steps from Kea's test on fail, and those under
  which they leave a changed file;
- when a subnet's edit and a reservation's change are all or nothing, and calls
  in which they are not.
-/

namespace Nmas.Dhcp

open Nmas.Text
open Function

def Act.isReplaced : Act → Bool
  | .replaced _ _ => true
  | _ => false

/-- Every file is as it was, and if one had been replaced Kea was asked last to
reload it as it was. -/
def Undone (files : Files) (world : World) : Prop :=
  world.files = files ∧
    (world.acts.any Act.isReplaced = true → world.acts.getLast? = some (.asked files))

def Result.failed : Result → Bool
  | .raised => false
  | .returned out => out.error.isSome && !out.outcome

def AllOrNothing (files : Files) (called : Result × World) : Prop :=
  called.1.failed = true → Undone files called.2

variable {Reading : Type} {answers : Answers Reading} {judge : Reading → Bool} {files : Files}
  {path previous candidate fresh : Str} {world : World} {fault : Fault}

namespace Answers

/-- The checks' own questions are answered, and Kea's test passes and the candidate is written. -/
def written (answers : Answers Reading) : Bool :=
  answers.config.isSome && answers.main.isSome && answers.test == some true && answers.writes.isSome

def unread (answers : Answers Reading) : Bool :=
  answers.written && answers.reload && answers.readBack.any Option.isNone

/-- The steps from the test on return with an error and no outcome. -/
def fails (answers : Answers Reading) (judge : Reading → Bool) : Bool :=
  answers.config.isSome && answers.main.isSome && answers.test == some false ||
    answers.unread ||
    answers.written && answers.restores.isSome &&
      (!answers.reload || answers.readBack.any (fun config => config.any (fun read => !judge read)))

end Answers

theorem restore_undone (isPrevious : files path = some previous)
    (isFiles : world.files = update files path (some candidate)) :
    AllOrNothing files (restore answers path previous fault world) := by
  unfold restore
  split
  · intro failed
    cases failed
  · intro _
    have isBack : (world.replace path previous).files = files := by
      show update world.files path (some previous) = files
      rw [isFiles, update_idem, ← isPrevious, update_eq_self]
    refine ⟨isBack, fun _ => ?_⟩
    show (_ ++ [Act.asked (world.replace path previous).files]).getLast? = _
    rw [List.getLast?_append, isBack]
    rfl

theorem untouched (result : Result) : AllOrNothing files (result, ⟨files, []⟩) := by
  intro _
  exact ⟨rfl, nofun⟩

/-- **From the test on**, with no file created. -/
theorem serves_iff (isPrevious : files path = some previous) (isConfig : answers.config.isSome)
    (isMain : answers.main.isSome) :
    AllOrNothing files (serves answers path previous candidate judge ⟨files, []⟩) ↔
      (answers.unread → candidate = previous) := by
  -- Where the read-back is refused the candidate is left, and Kea was asked to reload it.
  have left : AllOrNothing files (.fails .readBack,
      ((⟨files, []⟩ : World).replace path candidate).asks) ↔ candidate = previous := by
    constructor
    · intro undone
      have isBack : update files path (some candidate) = files := (undone rfl).1
      have isText := congrFun isBack path
      rw [update_self, isPrevious] at isText
      exact Option.some_inj.mp isText
    · intro same _
      have isBack : update files path (some candidate) = files := by
        rw [same, ← isPrevious, update_eq_self]
      refine ⟨isBack, fun _ => ?_⟩
      show some (Act.asked (update files path (some candidate))) = _
      rw [isBack]
  have raised {world : World} : AllOrNothing files (.raised, world) := nofun
  have restored {fault : Fault} := @restore_undone _ answers _ _ _ _ (((⟨files, []⟩ : World).replace path candidate).asks) fault isPrevious rfl
  unfold serves Answers.unread Answers.written
  rw [isConfig, isMain]
  cases answers.test with
  | none => exact iff_of_true raised nofun
  | some passes =>
    cases passes with
    | false => exact iff_of_true (untouched _) nofun
    | true =>
      cases answers.writes with
      | none => exact iff_of_true raised nofun
      | some _ =>
        cases isReload : answers.reload with
        | false => exact iff_of_true restored nofun
        | true =>
          cases answers.readBack with
          | none => exact iff_of_true raised nofun
          | some read =>
            cases read with
            | none => exact left.trans (imp_iff_right rfl).symm
            | some config =>
              refine iff_of_true ?_ nofun
              simp only [Bool.not_true, Bool.false_eq_true, if_false]
              split
              · exact restored
              · split
                · exact raised
                · exact nofun
                · exact nofun

theorem serves_failed (isConfig : answers.config.isSome) (isMain : answers.main.isSome) :
    (serves answers path previous candidate judge world).1.failed = answers.fails judge := by
  have restored {fault : Fault} {world : World} :
      (restore answers path previous fault world).1.failed = answers.restores.isSome := by
    unfold restore
    cases answers.restores <;> rfl
  unfold serves Answers.fails Answers.unread Answers.written
  rw [isConfig, isMain]
  cases answers.test with
  | none => rfl
  | some passes =>
    cases passes with
    | false => rfl
    | true =>
      cases answers.writes with
      | none => rfl
      | some _ =>
        cases isReload : answers.reload with
        | false => exact restored.trans (by simp)
        | true =>
          cases answers.readBack with
          | none => simp [Result.failed]
          | some read =>
            cases read with
            | none => simp [Result.failed, Result.fails]
            | some config =>
              cases isJudge : judge config with
              | false => simpa [isJudge] using restored
              | true =>
                simp only [isJudge, Bool.not_true, Bool.false_eq_true, if_false,
                  Option.any_some, Option.isNone_some, Bool.and_false, Bool.or_false]
                cases answers.record with
                | none => rfl
                | some kept => cases kept <;> rfl

theorem serves_files {other : Str} (isOther : other ≠ path) :
    (serves answers path previous candidate judge world).2.files other = world.files other := by
  have replaced {text : Str} {world : World} :
      ((world.replace path text).asks).files other = world.files other :=
    update_of_ne isOther _ _
  have restored {fault : Fault} {world : World} :
      (restore answers path previous fault world).2.files other = world.files other := by
    unfold restore
    split
    · rfl
    · exact replaced
  unfold serves
  split
  · rfl
  · rfl
  · rfl
  · simp only
    split
    · exact restored.trans replaced
    · split
      · exact replaced
      · exact replaced
      · split
        · exact restored.trans replaced
        · split
          · exact replaced
          · exact replaced
          · exact replaced

/-- **A call past its checks.** With no file created it is all or nothing unless the
read-back of another text is refused; with one created, exactly where it does not
fail. -/
theorem carry_iff {created : Option Str} (isPrevious : files path = some previous)
    (isNew : ∀ fresh ∈ created, files fresh = none) :
    AllOrNothing files (carry answers path judge ⟨files, []⟩ (.goes previous candidate created)) ↔
      (created = none → answers.unread → candidate = previous) ∧
        (created.isSome → answers.fails judge = false) := by
  unfold carry
  cases isConfig : answers.config with
  | none =>
    refine iff_of_true nofun ⟨fun _ unread => ?_, fun _ => ?_⟩
    · simp [Answers.unread, Answers.written, isConfig] at unread
    · simp [Answers.fails, Answers.unread, Answers.written, isConfig]
  | some config =>
    cases isMain : answers.main with
    | none =>
      refine iff_of_true nofun ⟨fun _ unread => ?_, fun _ => ?_⟩
      · simp [Answers.unread, Answers.written, isMain] at unread
      · simp [Answers.fails, Answers.unread, Answers.written, isMain]
    | some _ =>
      have hasConfig := Option.isSome_of_eq_some isConfig
      have hasMain := Option.isSome_of_eq_some isMain
      cases created with
      | none =>
        refine (serves_iff isPrevious hasConfig hasMain).trans ?_
        exact ⟨fun undone => ⟨fun _ => undone, nofun⟩, fun both => both.1 rfl⟩
      | some fresh =>
        have isNone := isNew fresh rfl
        have isOther : fresh ≠ path := by
          rintro rfl
          cases isNone.symm.trans isPrevious
        refine Iff.trans (b := answers.fails judge = false) ?_
          ⟨fun isFalse => ⟨fun isNone => (by cases isNone), fun _ => isFalse⟩,
            fun both => both.2 rfl⟩
        rw [← @serves_failed _ _ _ path previous candidate ((⟨files, []⟩ : World).create fresh) hasConfig hasMain]
        constructor
        · intro undone
          by_contra notFalse
          have isBack := (undone (Bool.of_not_eq_false notFalse)).1
          have stays := @serves_files _ answers judge _ previous candidate ((⟨files, []⟩ : World).create fresh) _ isOther
          have isCreated : ((⟨files, []⟩ : World).create fresh).files fresh =
              some "[]\n".ascii := update_self ..
          have isFresh := congrFun isBack fresh
          rw [isNone] at isFresh
          cases isFresh.symm.trans (stays.trans isCreated)
        · intro isFalse failed
          cases isFalse.symm.trans failed

/-- **The condition.** Past its checks, a call that created no file has its
read-back answered once Kea reloaded another text than before; and one that
created a file does not fail from there on. -/
def Head.Safe (answers : Answers Reading) (judge : Reading → Bool) : Head → Prop
  | .stops _ => True
  | .goes previous candidate created =>
    (created = none → answers.unread = true → candidate = previous) ∧
      (created.isSome = true → answers.fails judge = false)

theorem carry_safe {head : Head}
    (goes : ∀ previous candidate created, head = .goes previous candidate created →
      files path = some previous ∧ ∀ fresh ∈ created, files fresh = none) :
    AllOrNothing files (carry answers path judge ⟨files, []⟩ head) ↔ head.Safe answers judge := by
  cases head with
  | stops result => exact iff_of_true (untouched result) trivial
  | goes previous candidate created =>
    obtain ⟨isPrevious, isNew⟩ := goes previous candidate created rfl
    exact carry_iff isPrevious isNew

section Heads

variable {loadSubnets : Str → Option (List FileSubnet)} {dumpSubnets : List FileSubnet → Str}
  {loadEntries : Str → Option (List Entry)} {dumpEntries : List Entry → Str} {edit : Edit}
  {reserve : Reserve} {creates : Option Unit} {created : Option Str}

theorem fresh_none {change : Change} (isFresh : change.fresh files = some fresh) :
    files fresh = none := by
  cases change with
  | edit id after | remove id => cases isFresh
  | add after =>
    simp only [Change.fresh] at isFresh
    split at isFresh
    · rename_i isNone
      cases isFresh
      exact isNone
    · cases isFresh

theorem editHead_goes (isHead : editHead loadSubnets dumpSubnets edit path creates files =
      .goes previous candidate created) :
    files path = some previous ∧ ∀ fresh ∈ created, files fresh = none := by
  simp only [editHead] at isHead
  iterate 6
    split at isHead
    · cases isHead
  · rename_i text isPrevious
    split at isHead
    · cases isHead
    · split at isHead
      · cases isHead
        exact ⟨isPrevious, fun fresh isFresh => by cases isFresh⟩
      · cases isHead
      · rename_i isFresh
        cases isHead
        refine ⟨isPrevious, fun one isOne => ?_⟩
        cases isOne
        exact fresh_none isFresh

variable [Readers]

theorem reserveHead_goes (isHead : reserveHead loadEntries dumpEntries reserve path files =
      .goes previous candidate created) :
    files path = some previous ∧ ∀ fresh ∈ created, files fresh = none := by
  simp only [reserveHead] at isHead
  iterate 6
    split at isHead
    · cases isHead
  · rename_i text isPrevious
    split at isHead
    · cases isHead
    · cases isHead
      exact ⟨isPrevious, fun fresh isFresh => by cases isFresh⟩

/-- **A DHCP change is all or nothing** exactly where it is safe past its checks: a
subnet's edit, and a reservation's change, over any files, plan and answers. -/
theorem all_or_nothing_iff (edit : Edit) (reserve : Reserve) (path : Str)
    (answers : Answers Running) (answers' : Answers Config) (files : Files) :
    (AllOrNothing files (applyEdit loadSubnets dumpSubnets edit path answers files) ↔
      (editHead loadSubnets dumpSubnets edit path answers.creates files).Safe answers
        (edit.judge answers)) ∧
    (AllOrNothing files (applyReserve loadEntries dumpEntries reserve path answers' files) ↔
      (reserveHead loadEntries dumpEntries reserve path files).Safe answers'
        (reserve.judge answers')) :=
  ⟨carry_safe fun _ _ _ => editHead_goes, carry_safe fun _ _ _ => reserveHead_goes⟩

end Heads

/-! ### Calls that are neither -/

def loadOne (text : Str) : Option (List FileSubnet) := some [⟨10, "reservations-10".ascii, text⟩]

def dumpAll (subnets : List FileSubnet) : Str := subnets.flatMap FileSubnet.rest

def subnetFile : Files := fun path =>
  if path = "subnets4".ascii then some "pool .10 - .20".ascii else none

def asks (change : Change) : Edit where
  reason := "as agreed".ascii
  family := "IPv4".ascii
  planned := .ok ⟨change, false, "5f1c".ascii⟩
  confirmed := "5f1c".ascii
  ack := false

/-- Kea's test passes and it reloads, and then answers nothing more. -/
def silent (passes : Bool) : Answers Running :=
  ⟨some (), some ⟨[], []⟩, some (), some passes, some (), true, some none, some (), true, some true⟩

/-- The pool's change stays written, or the new subnet's reservation file stays. -/
theorem left_written :
    ¬ AllOrNothing subnetFile (applyEdit loadOne dumpAll
        (asks (.edit 10 ⟨10, "reservations-10".ascii, "pool .10 - .30".ascii⟩)) "subnets4".ascii
        (silent true) subnetFile) ∧
      ¬ AllOrNothing subnetFile (applyEdit loadOne dumpAll
        (asks (.add ⟨20, "reservations-20".ascii, "pool .40 - .50".ascii⟩)) "subnets4".ascii
        (silent false) subnetFile) := by
  constructor
  · intro undone
    have isBack := congrFun (undone (by decide)).1 "subnets4".ascii
    exact absurd isBack (by decide)
  · intro undone
    have isBack := congrFun (undone (by decide)).1 "reservations-20".ascii
    exact absurd isBack (by decide)

end Nmas.Dhcp
