import Mathlib.Data.Char
import Mathlib.Data.List.Lex
import Mathlib.Data.Rat.Floor
import Nmas.Alerts.History
import Nmas.Log.Machine

/-!
Contract: alert history that moves to the data lake stays in one place or the other.

Owns: `record` over the whole store, `moved_keys`, `transitions` and `expire` of
`alert_history.py`, and the histories in which no moved row is lost.

The archive is a map from an object's name to its lines, and a put replaces. A
line is the row it is written from. The times in a name have one width and no
separator, so a name is the four values in it.
-/

namespace Nmas.Alerts

open Nmas.Text List
open Nmas.Log.Machine (run Along)

/-- A transition with the networks that share its Grafana. -/
structure Filed where
  row : Row
  networks : List Str
deriving DecidableEq

structure ArchiveKey where
  network : Str
  first : Time
  last : Time
  count : Nat
deriving DecidableEq

inductive Entry where
  | transition (filed : Filed)
  | moved (keys : List TransitionKey) (archiveKey : ArchiveKey)
deriving DecidableEq

/-- The object a row names, if it is a moved row. -/
def Entry.names : Entry → Option ArchiveKey
  | .transition _ => none
  | .moved _ archiveKey => some archiveKey

structure Lake where
  store : List Entry
  objects : ArchiveKey → Option (List Filed)

namespace Lake

open Function

/-- Every transition ever kept. -/
def filed (store : List Entry) : List Filed :=
  store.filterMap (fun entry => match entry with
    | .transition filed => some filed
    | .moved _ _ => none)

def movedKeys (store : List Entry) : List TransitionKey :=
  store.flatMap (fun entry => match entry with
    | .transition _ => []
    | .moved keys _ => keys)

/-- `transitions`: those still served. -/
def transitions (store : List Entry) : List Filed :=
  (filed store).filter (fun one => one.row.key ∉ movedKeys store)

/-! ### Record -/

/-- The rows of one `record`, in their order; an append raises after `room` of them. -/
def keepFrom (store : List Entry) : (room : Option Nat) → List Filed → List Entry
  | _, [] => store
  | room, offer :: rest =>
    let rows := (filed store).map Filed.row
    if held rows offer.row then keepFrom store room rest
    else if offer.row.requiresOpen && !opened rows offer.row then keepFrom store room rest
    else
      let kept := store ++ [.transition ⟨offer.row.kept, offer.networks⟩]
      match room with
      | none => keepFrom kept none rest
      | some 0 => store
      | some (left + 1) => keepFrom kept (some left) rest

def record (store : List Entry) (refusal : Option Refusal) (offers : List Filed) : List Entry :=
  let inOrder := offers.insertionSort (fun one other => one.row.mark ≤ other.row.mark)
  match refusal with
  | some .unreadable => store
  | some (.raises appended) => keepFrom store (some appended) inOrder
  | none => keepFrom store none inOrder

/-! ### Expire -/

/-- `epoch(row["at"])`: a time before 2000, or in no year of four digits, is none. -/
def epoch (at_ : Time) : Option Time :=
  if 946684800 ≤ at_ ∧ at_ < 253402300800 then some at_ else none

def networksOf (one : Filed) : List Str := if one.networks = [] then [[]] else one.networks

def days (retention : Str → Nat) (one : Filed) : Nat := ((networksOf one).map retention).foldl max 0

/-- A row older than the longest retention of its networks. -/
def due (now : ℚ) (retention : Str → Nat) (one : Filed) : Bool :=
  (epoch one.row.at_).any (fun (at_ : ℤ) => (days retention one * 86400 : ℚ) < now - (at_ : ℚ))

/-- The rows to move of one network, the first of theirs. -/
structure Batch where
  network : Str
  rows : List Filed
deriving DecidableEq

/-- The batches of an `expire`, by network. -/
def batches (store : List Entry) (now : ℚ) (retention : Str → Nat) : List Batch :=
  let old := (transitions store).filter (due now retention)
  let first := fun one => (networksOf one).headD []
  ((old.map first).dedup.insertionSort (· ≤ ·)).map (fun network =>
    ⟨network, old.filter (fun one => first one = network)⟩)

def Batch.archiveKey (batch : Batch) : ArchiveKey where
  network := if batch.network = [] then "Default".ascii else batch.network
  first := (batch.rows.head?.map (·.row.at_)).getD 0
  last := (batch.rows.getLast?.map (·.row.at_)).getD 0
  count := batch.rows.length

/-- What a network's archive does with an object, and whether the store then takes the
row that names it. -/
inductive Put where
  | unconfigured
  | refused
  | stored (named : Bool)
deriving DecidableEq

def Put.isStored : Put → Bool
  | unconfigured | refused => false
  | stored _ => true

/-- One batch's turn; once the store raises, no batch has one. -/
def move (puts : Str → Put) (state : Lake × Bool) (batch : Batch) : Lake × Bool :=
  let (lake, raised) := state
  if raised then state
  else
    match puts batch.network with
    | .unconfigured | .refused => state
    | .stored named =>
      let objects := update lake.objects batch.archiveKey (some batch.rows)
      if named then
        (⟨lake.store ++ [.moved (batch.rows.map (·.row.key)) batch.archiveKey], objects⟩, false)
      else (⟨lake.store, objects⟩, true)

/-- `expire`, where the store can be read. -/
def expire (lake : Lake) (now : ℚ) (retention : Str → Nat) (puts : Str → Put) : Lake :=
  (run (move puts) (lake, false) (batches lake.store now retention)).1

/-! ### Histories -/

/-- A call that reads or writes the history. -/
inductive Call where
  | record (refusal : Option Refusal) (offers : List Filed)
  | expire (readable : Bool) (now : ℚ) (retention : Str → Nat) (puts : Str → Put)

def step (lake : Lake) : Call → Lake
  | .record refusal offers => { lake with store := record lake.store refusal offers }
  | .expire readable now retention puts =>
    if readable then expire lake now retention puts else lake

/-- Nothing is kept and nothing is archived. -/
def empty : Lake := ⟨[], fun _ => none⟩

/-- Every transition kept is served, or is a line of the object that a moved row naming
it names. -/
def NothingLost (lake : Lake) : Prop :=
  ∀ one ∈ filed lake.store, one ∈ transitions lake.store ∨
    ∃ keys archiveKey, .moved keys archiveKey ∈ lake.store ∧ one.row.key ∈ keys ∧
      ∃ lines, lake.objects archiveKey = some lines ∧ one ∈ lines

/-- No moved row names the object that the batch would be put in. -/
def Fresh (state : Lake × Bool) (batch : Batch) : Prop :=
  ∀ entry ∈ state.1.store, entry.names ≠ some batch.archiveKey

def PutsFresh (puts : Str → Put) (state : Lake × Bool) (batch : Batch) : Prop :=
  state.2 = false → (puts batch.network).isStored = true → Fresh state batch

/-- **The condition.** Each batch that is put goes to an object that no moved row names. -/
def Allowed (lake : Lake) : Call → Prop
  | .record _ _ => True
  | .expire readable now retention puts =>
    readable = true →
      Along (move puts) (PutsFresh puts) (lake, false) (batches lake.store now retention)

instance (puts : Str → Put) (state : Lake × Bool) (batch : Batch) :
    Decidable (PutsFresh puts state batch) := by
  unfold PutsFresh Fresh
  infer_instance

instance (lake : Lake) : ∀ call, Decidable (Allowed lake call)
  | .record _ _ => .isTrue trivial
  | .expire readable now retention puts => by
    unfold Allowed
    infer_instance

/-! ### What is kept stays -/

section Kept

variable {store : List Entry} {one : Filed} {keys : List TransitionKey} {archiveKey : ArchiveKey}

theorem mem_movedKeys {key : TransitionKey} :
    key ∈ movedKeys store ↔ ∃ keys archiveKey, .moved keys archiveKey ∈ store ∧ key ∈ keys := by
  unfold movedKeys
  rw [mem_flatMap]
  constructor
  · rintro ⟨entry, member, isKey⟩
    cases entry with
    | transition filed => cases isKey
    | moved keys archiveKey => exact ⟨keys, archiveKey, member, isKey⟩
  · rintro ⟨keys, archiveKey, member, isKey⟩
    exact ⟨_, member, isKey⟩

theorem mem_transitions :
    one ∈ transitions store ↔ one ∈ filed store ∧ one.row.key ∉ movedKeys store := by
  unfold transitions
  rw [mem_filter, decide_eq_true_iff]

def keysOf (store : List Entry) : List TransitionKey := (filed store).map (·.row.key)

theorem filed_append_transition : filed (store ++ [.transition one]) = filed store ++ [one] := by
  unfold filed
  rw [filterMap_append]
  rfl

theorem filed_append_moved : filed (store ++ [.moved keys archiveKey]) = filed store := by
  unfold filed
  rw [filterMap_append]
  exact append_nil _

/-- A key names one transition; a moved row names keys of transitions, and every
transition it names is a line of its object. -/
structure Sound (lake : Lake) : Prop where
  distinct : (keysOf lake.store).Nodup
  known : ∀ keys archiveKey, .moved keys archiveKey ∈ lake.store → keys ⊆ keysOf lake.store
  held_ : ∀ keys archiveKey, .moved keys archiveKey ∈ lake.store →
    ∃ lines, lake.objects archiveKey = some lines ∧
      ∀ one ∈ filed lake.store, one.row.key ∈ keys → one ∈ lines

theorem nothingLost_of_sound {lake : Lake} (sound : Sound lake) : NothingLost lake := by
  intro one isFiled
  by_cases isMoved : one.row.key ∈ movedKeys lake.store
  · obtain ⟨keys, archiveKey, member, isKey⟩ := mem_movedKeys.mp isMoved
    obtain ⟨lines, isObject, allLines⟩ := sound.held_ keys archiveKey member
    exact .inr ⟨keys, archiveKey, member, isKey, lines, isObject, allLines one isFiled isKey⟩
  · exact .inl (mem_transitions.mpr ⟨isFiled, isMoved⟩)

theorem Sound.keep {objects : ArchiveKey → Option (List Filed)} (one : Filed)
    (sound : Sound ⟨store, objects⟩) (isNew : one.row.key ∉ keysOf store) : Sound ⟨store ++ [.transition one], objects⟩ := by
  have grown : keysOf (store ++ [.transition one]) = keysOf store ++ [one.row.key] := by
    unfold keysOf
    rw [filed_append_transition, map_append, map_singleton]
  have before {keys : List TransitionKey} {archiveKey : ArchiveKey}
      (member : .moved keys archiveKey ∈ store ++ [.transition one]) :
      .moved keys archiveKey ∈ store := by
    simpa using member
  refine ⟨?_, fun keys archiveKey member => ?_, fun keys archiveKey member => ?_⟩
  · dsimp only
    rw [grown]
    exact nodup_append.mpr ⟨sound.distinct, nodup_singleton _, by
      rintro key isKey other isOther rfl
      exact isNew (mem_singleton.mp isOther ▸ isKey)⟩
  · dsimp only
    rw [grown]
    exact subset_append_of_subset_left _ (sound.known keys archiveKey (before member))
  · obtain ⟨lines, isObject, allLines⟩ := sound.held_ keys archiveKey (before member)
    refine ⟨lines, isObject, fun other isFiled isKey => ?_⟩
    dsimp only at isFiled
    rw [filed_append_transition, mem_append, mem_singleton] at isFiled
    rcases isFiled with isOld | rfl
    · exact allLines other isOld isKey
    · exact absurd (sound.known keys archiveKey (before member) isKey) isNew

theorem not_mem_keysOf {row : Row} (isNew : held ((filed store).map Filed.row) row ≠ true) :
    row.key ∉ keysOf store := by
  intro isKey
  obtain ⟨other, isFiled, sameKey⟩ := mem_map.mp isKey
  refine isNew (any_eq_true.mpr ⟨other.row, mem_map_of_mem isFiled, ?_⟩)
  exact decide_eq_true sameKey

theorem keepFrom_sound {objects : ArchiveKey → Option (List Filed)} (room : Option Nat)
    {offers : List Filed} (sound : Sound ⟨store, objects⟩) :
    Sound ⟨keepFrom store room offers, objects⟩ := by
  induction offers generalizing store room with
  | nil => exact sound
  | cons offer rest ih =>
    unfold keepFrom
    dsimp only
    split_ifs with isHeld unopened
    · exact ih room sound
    · exact ih room sound
    · have kept := sound.keep ⟨offer.row.kept, offer.networks⟩ (not_mem_keysOf isHeld)
      cases room with
      | none => exact ih none kept
      | some left =>
        cases left with
        | zero => exact sound
        | succ left => exact ih (some left) kept

theorem record_sound {lake : Lake} (sound : Sound lake) (refusal : Option Refusal)
    (offers : List Filed) : Sound { lake with store := record lake.store refusal offers } := by
  unfold record
  cases refusal with
  | none => exact keepFrom_sound none sound
  | some refused =>
    cases refused with
    | unreadable => exact sound
    | raises appended => exact keepFrom_sound (some appended) sound

theorem Sound.eq_of_key {lake : Lake} (sound : Sound lake) {other : Filed}
    (isOne : one ∈ filed lake.store) (isOther : other ∈ filed lake.store)
    (sameKey : one.row.key = other.row.key) : one = other :=
  inj_on_of_nodup_map sound.distinct isOne isOther sameKey

theorem Sound.put {objects : ArchiveKey → Option (List Filed)} (lines : List Filed)
    (sound : Sound ⟨store, objects⟩) (fresh : ∀ entry ∈ store, entry.names ≠ some archiveKey) :
    Sound ⟨store, update objects archiveKey (some lines)⟩ := by
  refine ⟨sound.distinct, sound.known, fun keys other member => ?_⟩
  have isOther : other ≠ archiveKey := by
    rintro rfl
    exact fresh _ member rfl
  dsimp only
  rw [update_of_ne isOther]
  exact sound.held_ keys other member

theorem Sound.name {objects : ArchiveKey → Option (List Filed)} {lines : List Filed}
    (sound : Sound ⟨store, objects⟩) (isObject : objects archiveKey = some lines)
    (kept : ∀ one ∈ lines, one ∈ filed store) :
    Sound ⟨store ++ [.moved (lines.map (·.row.key)) archiveKey], objects⟩ := by
  have sameKeys : keysOf (store ++ [.moved (lines.map (·.row.key)) archiveKey]) = keysOf store := by
    unfold keysOf
    rw [filed_append_moved]
  have cases_ {keys : List TransitionKey} {other : ArchiveKey}
      (member : .moved keys other ∈ store ++ [.moved (lines.map (·.row.key)) archiveKey]) :
      .moved keys other ∈ store ∨ keys = lines.map (·.row.key) ∧ other = archiveKey := by
    simpa using member
  refine ⟨?_, fun keys other member => ?_, fun keys other member => ?_⟩
  · dsimp only
    rw [sameKeys]
    exact sound.distinct
  · dsimp only
    rw [sameKeys]
    rcases cases_ member with before | ⟨rfl, rfl⟩
    · exact sound.known keys other before
    · intro key isKey
      obtain ⟨one, isLine, rfl⟩ := mem_map.mp isKey
      exact mem_map_of_mem (kept one isLine)
  · dsimp only
    rw [filed_append_moved]
    rcases cases_ member with before | ⟨rfl, rfl⟩
    · exact sound.held_ keys other before
    · refine ⟨lines, isObject, fun one isFiled isKey => ?_⟩
      obtain ⟨line, isLine, sameKey⟩ := mem_map.mp isKey
      exact sound.eq_of_key (kept line isLine) isFiled sameKey ▸ isLine

structure Moving (read : List Filed) (state : Lake × Bool) : Prop where
  sound : Sound state.1
  kept : ∀ one ∈ read, one ∈ filed state.1.store

theorem move_moving {read : List Filed} {puts : Str → Put} {state : Lake × Bool} {batch : Batch}
    (moving : Moving read state) (ofRead : ∀ one ∈ batch.rows, one ∈ read)
    (fresh : PutsFresh puts state batch) : Moving read (move puts state batch) := by
  obtain ⟨⟨store, objects⟩, raised⟩ := state
  unfold move
  dsimp only
  split_ifs with isRaised
  · exact moving
  · cases outcome : puts batch.network with
    | unconfigured | refused => exact moving
    | stored named =>
      have isFresh := fresh (Bool.not_eq_true _ ▸ isRaised) (by rw [outcome]; rfl)
      have put := moving.sound.put batch.rows isFresh
      cases named with
      | false => exact ⟨put, moving.kept⟩
      | true =>
        refine ⟨put.name (update_self _ _ _) fun one isLine =>
          moving.kept one (ofRead one isLine), fun one isRead => ?_⟩
        show one ∈ filed (store ++ [.moved _ _])
        rw [filed_append_moved]
        exact moving.kept one isRead

theorem mem_transitions_of_mem_batch {now : ℚ} {retention : Str → Nat} {batch : Batch}
    (isBatch : batch ∈ batches store now retention) (member : one ∈ batch.rows) :
    one ∈ transitions store := by
  unfold batches at isBatch
  obtain ⟨network, -, rfl⟩ := mem_map.mp isBatch
  exact mem_of_mem_filter (mem_of_mem_filter member)

theorem expire_sound {lake : Lake} {now : ℚ} {retention : Str → Nat} {puts : Str → Put}
    (sound : Sound lake) (allowed : Allowed lake (.expire true now retention puts)) :
    Sound (expire lake now retention puts) := by
  have every : ∀ batch ∈ batches lake.store now retention, ∀ one ∈ batch.rows,
      one ∈ filed lake.store :=
    fun batch isBatch one member =>
      (mem_transitions.mp (mem_transitions_of_mem_batch isBatch member)).1
  have along := allowed rfl
  have start : Moving (filed lake.store) (lake, false) := ⟨sound, fun one member => member⟩
  unfold expire
  generalize batches lake.store now retention = left at every along
  generalize (lake, false) = state at along start
  suffices Moving (filed lake.store) (run (move puts) state left) from this.sound
  induction left generalizing state with
  | nil => exact start
  | cons batch rest ih =>
    exact ih (fun other member => every other (.tail _ member))
      _ along.2 (move_moving start (every batch (.head _)) along.1)

theorem step_sound (lake : Lake) (call : Call) (sound : Sound lake) (allowed : Allowed lake call) :
    Sound (step lake call) := by
  cases call with
  | record refusal offers => exact record_sound sound refusal offers
  | expire readable now retention puts =>
    cases readable with
    | false => exact sound
    | true => exact expire_sound sound allowed

theorem empty_sound : Sound empty := by
  refine ⟨nodup_nil, fun keys archiveKey member => ?_, fun keys archiveKey member => ?_⟩
  · cases member
  · cases member

end Kept

/-- **No row is lost** in any history whose every put goes to an object that no moved
row names. -/
theorem moved_history_kept (calls : List Call) (allowed : Along step Allowed empty calls) :
    NothingLost (run step empty calls) :=
  nothingLost_of_sound (allowed.keeps step_sound empty_sound)

/-! ### Two objects of one name -/

def began (rule : String) (at_ : Time) : Filed :=
  ⟨⟨⟨"grafana-alerts".ascii, rule.ascii, []⟩, "Alerting".ascii, .condition, at_, false⟩,
    ["lab".ascii]⟩

/-- An `expire` that finds every such row old, and an archive that takes each object. -/
def expires : Call := .expire true 2000000000 (fun _ => 90) (fun _ => .stored true)

/-- Two alerts of one second, the second one recorded by a backfill after the first one
moved. -/
def backfilled : List Call :=
  [.record none [began "Interface down" 1700000000], expires,
    .record none [began "Device down" 1700000000], expires]

/-- The second move replaces the object the first alert is in. -/
theorem backfilled_lost : ¬ NothingLost (run step empty backfilled) := by
  intro nothingLost
  have isStore : (run step empty backfilled).store =
      [.transition (began "Interface down" 1700000000),
        .moved [(began "Interface down" 1700000000).row.key]
          ⟨"lab".ascii, 1700000000, 1700000000, 1⟩,
        .transition (began "Device down" 1700000000),
        .moved [(began "Device down" 1700000000).row.key]
          ⟨"lab".ascii, 1700000000, 1700000000, 1⟩] := by decide +kernel
  have isObject : (run step empty backfilled).objects ⟨"lab".ascii, 1700000000, 1700000000, 1⟩ =
      some [began "Device down" 1700000000] := by decide +kernel
  have isFiled : began "Interface down" 1700000000 ∈ filed (run step empty backfilled).store := by
    decide +kernel
  rcases nothingLost _ isFiled with isServed | ⟨keys, archiveKey, member, -, lines, isLines, inLines⟩
  · revert isServed
    decide +kernel
  · have isName : archiveKey = ⟨"lab".ascii, 1700000000, 1700000000, 1⟩ := by
      rw [isStore] at member
      simp only [List.mem_cons, reduceCtorEq, Entry.moved.injEq, List.not_mem_nil, or_false,
        false_or] at member
      rcases member with ⟨-, isName⟩ | ⟨-, isName⟩
      · exact isName
      · exact isName
    rw [isName, isObject] at isLines
    obtain rfl := Option.some.inj isLines
    revert inLines
    decide +kernel

/-- The same two alerts, a second apart: each is in an object of its own. -/
theorem a_second_apart_kept :
    NothingLost (run step empty [.record none [began "Interface down" 1700000000], expires,
      .record none [began "Device down" 1700000001], expires]) :=
  moved_history_kept _ (by decide +kernel)

end Lake

end Nmas.Alerts
