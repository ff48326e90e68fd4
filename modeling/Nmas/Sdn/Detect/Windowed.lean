import Mathlib.Data.List.Dedup
import Nmas.Log.LastSeen
import Nmas.Sdn.Detect.OneKey

/-!
Contract: the scan rule's count is the window's.

Owns: `sdn/detect.py`, `scan`'s sightings by the texts they are kept under, the
collections judged one after another with the sightings carried from each to
the next, and that what is counted is what the flows of the window name.

A sighting is overwritten by a later one, dropped past the window, and kept
across collections that show nothing of its switch.
-/

namespace Nmas.Sdn.Detect

open Nmas.Text List

/-! ### The sightings by their texts -/

/-- `f"{conn}|{dh}|{src}"`. -/
def seenKey (place : Str × Str × Str) : Str := place.1 ++ '|' :: (place.2.1 ++ '|' :: place.2.2)

/-- `scan`'s `seen`: each entry under its text. -/
abbrev KeyedSeen := List (Str × Seen)

def noteKeyed (seen : KeyedSeen) (noted : (Str × Str × Str) × Sighting) : KeyedSeen :=
  let key := seenKey noted.1
  let held := ((seen.find? (·.1 = key)).map Prod.snd).getD ⟨noted.1.1, noted.1.2.1, noted.1.2.2, []⟩
  Log.put Prod.fst (key, { held with ports := Log.put Sighting.port noted.2 held.ports }) seen

/-- Seen no longer ago than the window. -/
def InWindow (values : Thresholds) (now at_ : Time) : Prop :=
  ((now - at_ : Int) : ℚ) ≤ values.scanWindowSeconds

instance (values : Thresholds) (now at_ : Time) : Decidable (InWindow values now at_) :=
  inferInstanceAs (Decidable (_ ≤ _))

/-- An entry without its sightings past the window, none when nothing is left. -/
def pruned (at_ : Time) (values : Thresholds) (entry : Seen) : Option Seen :=
  let kept := entry.ports.filter (fun sighting => InWindow values at_ sighting.at_)
  if kept.isEmpty then none else some { entry with ports := kept }

section Scan

variable [Readers]

def sightingOf (at_ : Time) (pair : Controller × Switch) (flow : ReadFlow) :
    Option ((Str × Str × Str) × Sighting) :=
  match dstPort flow.match_, address flow.match_ .src with
  | some port, some src =>
    some ((pair.1.connection, pair.2.dpidHex, src), ⟨port, at_, flow.id, address flow.match_ .dst⟩)
  | _, _ => none

def sightingsOf (collected : Collected) (at_ : Time) : List ((Str × Str × Str) × Sighting) :=
  ((switches collected).filter (fun pair => portsCounted pair.2)).flatMap (fun pair =>
    pair.2.flows.filterMap (sightingOf at_ pair))

/-- `scan`'s sightings after the collection, those past the window dropped. -/
def scanSeen (collected : Collected) (at_ : Time) (values : Thresholds) (seen : KeyedSeen) :
    KeyedSeen :=
  ((sightingsOf collected at_).foldl noteKeyed seen).filterMap (fun entry =>
    (pruned at_ values entry.2).map (entry.1, ·))

/-- `scan`'s detections of sources. -/
def scanDetections (collected : Collected) (values : Thresholds) (seen : KeyedSeen) :
    List Detection :=
  scans collected values (seen.map Prod.snd)

end Scan

/-- A collection, and when it was taken. -/
structure Visit where
  collected : Collected
  at_ : Time

section Scan

variable [Readers]

/-- The sightings after these collections, judged one after another. -/
def seenAfter (values : Thresholds) (visits : List Visit) : KeyedSeen :=
  visits.foldl (fun seen visit => scanSeen visit.collected visit.at_ values seen) []

/-! ### The plain count -/

def countedOn (collected : Collected) (connection dpidHex : Str) : List Switch :=
  ((switches collected).filter (fun pair =>
    portsCounted pair.2 && pair.1.connection = connection && pair.2.dpidHex = dpidHex)).map Prod.snd

def portsNamed (collected : Collected) (connection dpidHex source : Str) : List Str :=
  (countedOn collected connection dpidHex).flatMap (fun switch =>
    switch.flows.filterMap (fun flow =>
      if address flow.match_ .src = some source then dstPort flow.match_ else none))

/-- The distinct ones of the collections no older than the window. -/
def windowPorts (values : Thresholds) (visits : List Visit) (now : Time)
    (connection dpidHex source : Str) : List Str :=
  ((visits.filter (fun visit => InWindow values now visit.at_)).flatMap (fun visit =>
    portsNamed visit.collected connection dpidHex source)).dedup

end Scan

/-- A controller's connection is named without the texts' separator, as its
switches are: `connections.NAME` and `dpid_hex`. -/
def Named (collected : Collected) : Prop :=
  ∀ pair ∈ switches collected, '|' ∉ pair.1.connection ∧ '|' ∉ pair.2.dpidHex

instance (collected : Collected) : Decidable (Named collected) :=
  inferInstanceAs (Decidable (∀ pair ∈ switches collected, _))

theorem append_bar_inj {one other rest others : Str} (inOne : '|' ∉ one) (inOther : '|' ∉ other) :
    one ++ '|' :: rest = other ++ '|' :: others ↔ one = other ∧ rest = others := by
  induction one generalizing other with
  | nil =>
    cases other with
    | nil => simp
    | cons head tail =>
      have notHead : '|' ≠ head := fun same => inOther (same ▸ (.head _))
      constructor
      · intro same
        injection same with first
        exact absurd first notHead
      · rintro ⟨nothing, _⟩
        cases nothing
  | cons head tail ih =>
    cases other with
    | nil =>
      have notHead : head ≠ '|' := fun same => inOne (same ▸ (.head _))
      constructor
      · intro same
        injection same with first
        exact absurd first notHead
      · rintro ⟨nothing, _⟩
        cases nothing
    | cons otherHead otherTail =>
      rw [cons_append, cons_append, List.cons.injEq,
        ih (fun member => inOne (.tail _ member))
          (fun member => inOther (.tail _ member)), List.cons.injEq, and_assoc]

def PlaceNamed (place : Str × Str × Str) : Prop := '|' ∉ place.1 ∧ '|' ∉ place.2.1

theorem seenKey_inj {one other : Str × Str × Str} (namedOne : PlaceNamed one)
    (namedOther : PlaceNamed other) : seenKey one = seenKey other ↔ one = other := by
  unfold seenKey
  rw [append_bar_inj namedOne.1 namedOther.1, append_bar_inj namedOne.2 namedOther.2,
    ← Prod.ext_iff, ← Prod.ext_iff]

/-! ### The texts and the places -/

def keyed (seen : List Seen) : KeyedSeen := seen.map (fun entry => (seenKey entry.place, entry))

section Texts

variable [Readers] {collected : Collected} {at_ : Time} {values : Thresholds} {seen : List Seen}

omit [Readers] in
theorem find_keyed {place : Str × Str × Str} (named : ∀ entry ∈ seen, PlaceNamed entry.place)
    (placeNamed : PlaceNamed place) :
    ((keyed seen).find? (·.1 = seenKey place)).map Prod.snd = seen.find? (·.place = place) := by
  induction seen with
  | nil => rfl
  | cons entry rest ih =>
    have onRest := ih (fun other member =>
      named other (.tail _ member))
    have sameKey := seenKey_inj (named entry (.head _)) placeNamed
    show (List.find? _ ((seenKey entry.place, entry) :: keyed rest)).map Prod.snd = _
    rw [List.find?_cons, List.find?_cons]
    by_cases same : entry.place = place
    · rw [decide_eq_true same, decide_eq_true (sameKey.mpr same)]
      rfl
    · rw [decide_eq_false same, decide_eq_false (fun isKey => same (sameKey.mp isKey))]
      exact onRest

omit [Readers] in
theorem noteKeyed_keyed {noted : (Str × Str × Str) × Sighting}
    (named : ∀ entry ∈ seen, PlaceNamed entry.place) (placeNamed : PlaceNamed noted.1) :
    noteKeyed (keyed seen) noted = keyed (noteSighting noted.1 noted.2 seen) := by
  unfold noteKeyed noteSighting
  dsimp only
  rw [find_keyed named placeNamed]
  have sameEntry : ∀ held : Option Seen, seen.find? (·.place = noted.1) = held →
      { held.getD ⟨noted.1.1, noted.1.2.1, noted.1.2.2, []⟩ with
        ports := Log.put Sighting.port noted.2
          (held.getD ⟨noted.1.1, noted.1.2.1, noted.1.2.2, []⟩).ports } =
        (⟨noted.1.1, noted.1.2.1, noted.1.2.2,
          Log.put Sighting.port noted.2 ((held.map Seen.ports).getD [])⟩ : Seen) := by
    intro held isHeld
    cases held with
    | none => rfl
    | some entry =>
      have isPlace := List.find?_some isHeld
      rw [decide_eq_true_eq] at isPlace
      rw [← isPlace]
      rfl
  rw [sameEntry _ rfl]
  unfold keyed
  symm
  apply Log.map_put
  intro entry member
  exact seenKey_inj (named entry member) placeNamed

theorem named_of_sightingsOf (collectedNamed : Named collected)
    {noted : (Str × Str × Str) × Sighting} (member : noted ∈ sightingsOf collected at_) :
    PlaceNamed noted.1 := by
  obtain ⟨pair, isPair, inside⟩ := mem_flatMap.mp member
  obtain ⟨flow, _, isSighting⟩ := mem_filterMap.mp inside
  unfold sightingOf at isSighting
  split at isSighting
  · cases isSighting
    exact collectedNamed pair (mem_filter.mp isPair).1
  · cases isSighting

omit [Readers] in
theorem mem_noteSighting {place : Str × Str × Str} {sighting : Sighting} {entry : Seen}
    (member : entry ∈ noteSighting place sighting seen) :
    entry.place = place ∨ entry ∈ seen := by
  rcases Log.mem_put member with old | isNew
  · exact .inr old
  · rw [isNew]
    exact .inl rfl

omit [Readers] in
theorem foldl_noteKeyed {noted : List ((Str × Str × Str) × Sighting)}
    (named : ∀ entry ∈ seen, PlaceNamed entry.place) (allNamed : ∀ one ∈ noted, PlaceNamed one.1) :
    noted.foldl noteKeyed (keyed seen) =
        keyed (noted.foldl (fun seen one => noteSighting one.1 one.2 seen) seen) ∧
      ∀ entry ∈ noted.foldl (fun seen one => noteSighting one.1 one.2 seen) seen,
        PlaceNamed entry.place := by
  induction noted generalizing seen with
  | nil => exact ⟨rfl, named⟩
  | cons one rest ih =>
    rw [forall_mem_cons] at allNamed
    rw [foldl_cons, foldl_cons, noteKeyed_keyed named allNamed.1]
    apply ih _ allNamed.2
    intro entry member
    rcases mem_noteSighting member with isPlace | old
    · rw [isPlace]
      exact allNamed.1
    · exact named entry old

omit [Readers] in
theorem pruned_eq_some_iff {entry kept : Seen} : pruned at_ values entry = some kept ↔
    kept = { entry with
      ports := entry.ports.filter (fun sighting => InWindow values at_ sighting.at_) } ∧
      kept.ports ≠ [] := by
  unfold pruned
  dsimp only
  split
  · rename_i nothing
    constructor
    · intro isKept
      cases isKept
    · rintro ⟨rfl, some_⟩
      exact absurd (isEmpty_iff.mp nothing) some_
  · rename_i some_
    constructor
    · intro isKept
      cases isKept
      exact ⟨rfl, fun nothing => some_ (isEmpty_iff.mpr nothing)⟩
    · rintro ⟨rfl, _⟩
      rfl

omit [Readers] in
theorem place_of_pruned {entry kept : Seen} (isKept : pruned at_ values entry = some kept) :
    kept.place = entry.place := by
  rw [(pruned_eq_some_iff.mp isKept).1]
  rfl

theorem sightings_eq :
    sightings collected at_ values seen =
      ((sightingsOf collected at_).foldl (fun seen one => noteSighting one.1 one.2 seen)
        seen).filterMap (pruned at_ values) := by
  have onePair : ∀ (seen : List Seen) (pair : Controller × Switch), sighted at_ pair.1 pair.2 seen =
      (pair.2.flows.filterMap (sightingOf at_ pair)).foldl
        (fun seen one => noteSighting one.1 one.2 seen) seen := by
    intro seen pair
    unfold sighted
    rw [foldl_filterMap]
    congr 1
    funext seen flow
    unfold sightingOf
    cases dstPort flow.match_ with
    | none => rfl
    | some port =>
      cases address flow.match_ .src with
      | none | some src => rfl
  unfold sightings sightingsOf
  rw [foldl_flatMap]
  simp only [onePair]
  rfl

/-- **The texts keep the places apart**: what is kept under them is what is kept by place. -/
theorem scanSeen_keyed (collectedNamed : Named collected)
    (named : ∀ entry ∈ seen, PlaceNamed entry.place) :
    scanSeen collected at_ values (keyed seen) = keyed (sightings collected at_ values seen) ∧
      ∀ entry ∈ sightings collected at_ values seen, PlaceNamed entry.place := by
  obtain ⟨sameNoted, notedNamed⟩ := foldl_noteKeyed named
    (fun one (member : one ∈ sightingsOf collected at_) =>
      named_of_sightingsOf collectedNamed member)
  rw [sightings_eq]
  unfold scanSeen
  rw [sameNoted]
  unfold keyed
  constructor
  · rw [filterMap_map, map_filterMap]
    congr 1
    funext entry
    show (pruned at_ values entry).map _ = (pruned at_ values entry).map _
    apply Option.map_congr
    intro kept isKept
    rw [place_of_pruned isKept]
  · intro entry member
    obtain ⟨old, oldMember, isEntry⟩ := mem_filterMap.mp member
    rw [place_of_pruned isEntry]
    exact notedNamed old oldMember

end Texts

/-! ### What is kept, by place and port -/

def heldIn (seen : List Seen) : Set (((Str × Str × Str) × Str) × Time) :=
  {kept | ∃ entry ∈ seen, entry.place = kept.1.1 ∧
    ∃ sighting ∈ entry.ports, sighting.port = kept.1.2 ∧ sighting.at_ = kept.2}

structure WellKept (seen : List Seen) : Prop where
  places : (seen.map Seen.place).Nodup
  ports : ∀ entry ∈ seen, (entry.ports.map Sighting.port).Nodup

theorem wellKept_nil : WellKept [] := ⟨nodup_nil, fun _ member => absurd member
  not_mem_nil⟩

section Kept

variable {seen : List Seen}

theorem mem_ports_at (kept : WellKept seen) {place : Str × Str × Str} {sighting : Sighting} :
    sighting ∈ ((seen.find? (·.place = place)).map Seen.ports).getD [] ↔
      ∃ entry ∈ seen, entry.place = place ∧ sighting ∈ entry.ports := by
  cases found : seen.find? (·.place = place) with
  | none =>
    rw [List.find?_eq_none] at found
    constructor
    · intro nothing
      cases nothing
    · rintro ⟨entry, member, isPlace, _⟩
      exact absurd (decide_eq_true isPlace) (found entry member)
  | some entry =>
    obtain ⟨member, isPlace⟩ := (Log.find_eq_some_iff kept.places).mp found
    constructor
    · intro inside
      exact ⟨entry, member, isPlace, inside⟩
    · rintro ⟨other, otherMember, isOther, inside⟩
      have isFound := (Log.find_eq_some_iff kept.places).mpr ⟨otherMember, isOther⟩
      rw [found] at isFound
      cases isFound
      exact inside

theorem ports_at_distinct (kept : WellKept seen) (place : Str × Str × Str) :
    ((((seen.find? (·.place = place)).map Seen.ports).getD []).map Sighting.port).Nodup := by
  cases found : seen.find? (·.place = place) with
  | none => exact nodup_nil
  | some entry => exact kept.ports entry (mem_of_find?_eq_some found)

theorem wellKept_noteSighting (kept : WellKept seen) {place : Str × Str × Str}
    {sighting : Sighting} : WellKept (noteSighting place sighting seen) := by
  refine ⟨noteSighting_distinct kept.places, ?_⟩
  intro entry member
  rcases Log.mem_put member with old | isNew
  · exact kept.ports entry old
  · rw [isNew]
    exact Log.put_distinct (ports_at_distinct kept place)

theorem mem_heldIn_noteSighting (kept : WellKept seen) {place : Str × Str × Str}
    {sighting : Sighting} {key : (Str × Str × Str) × Str} {time : Time} :
    (key, time) ∈ heldIn (noteSighting place sighting seen) ↔
      (key = (place, sighting.port) ∧ time = sighting.at_) ∨
        (key ≠ (place, sighting.port) ∧ (key, time) ∈ heldIn seen) := by
  obtain ⟨keyPlace, keyPort⟩ := key
  constructor
  · rintro ⟨entry, member, isPlace, shown, inside, isPort, isTime⟩
    dsimp only at isPlace isPort isTime
    rcases Log.mem_put_iff.mp member with isNew | ⟨old, otherPlace⟩
    · rw [isNew] at isPlace inside
      rcases Log.mem_put_iff.mp inside with isSighting | ⟨before, otherPort⟩
      · rw [isSighting] at isPort isTime
        left
        exact ⟨Prod.ext isPlace.symm isPort.symm, isTime.symm⟩
      · right
        obtain ⟨held, heldMember, heldPlace, heldInside⟩ := (mem_ports_at kept).mp before
        constructor
        · intro same
          injection same with _ samePort
          exact otherPort (isPort.trans samePort)
        · exact ⟨held, heldMember, heldPlace.trans isPlace, shown, heldInside, isPort, isTime⟩
    · right
      constructor
      · intro same
        injection same with samePlace
        exact otherPlace (isPlace.trans samePlace)
      · exact ⟨entry, old, isPlace, shown, inside, isPort, isTime⟩
  · rintro (⟨isKey, isTime⟩ | ⟨otherKey, held⟩)
    · injection isKey with isPlace isPort
      refine ⟨_, Log.mem_put_iff.mpr (.inl rfl), isPlace.symm, sighting,
        Log.mem_put_iff.mpr (.inl rfl), isPort.symm, isTime.symm⟩
    · obtain ⟨entry, member, isPlace, shown, inside, isPort, isTime⟩ := held
      dsimp only at isPlace isPort isTime
      by_cases samePlace : keyPlace = place
      · refine ⟨_, Log.mem_put_iff.mpr (.inl rfl), samePlace.symm, shown,
          Log.mem_put_iff.mpr (.inr ⟨?_, ?_⟩), isPort, isTime⟩
        · exact (mem_ports_at kept).mpr ⟨entry, member, isPlace.trans samePlace, inside⟩
        · intro samePort
          exact otherKey (Prod.ext samePlace (isPort.symm.trans samePort))
      · refine ⟨entry, Log.mem_put_iff.mpr (.inr ⟨member, ?_⟩), isPlace, shown, inside, isPort,
          isTime⟩
        intro isNoted
        exact samePlace (isPlace.symm.trans isNoted)

theorem mem_heldIn_foldl {at_ : Time} {noted : List ((Str × Str × Str) × Sighting)}
    (kept : WellKept seen) (allNow : ∀ one ∈ noted, one.2.at_ = at_) :
    WellKept (noted.foldl (fun seen one => noteSighting one.1 one.2 seen) seen) ∧
      ∀ key time, (key, time) ∈
          heldIn (noted.foldl (fun seen one => noteSighting one.1 one.2 seen) seen) ↔
        (key ∈ noted.map (fun one => (one.1, one.2.port)) ∧ time = at_) ∨
          (key ∉ noted.map (fun one => (one.1, one.2.port)) ∧ (key, time) ∈ heldIn seen) := by
  induction noted generalizing seen with
  | nil =>
    refine ⟨kept, fun key time => ?_⟩
    simp
  | cons one rest ih =>
    rw [forall_mem_cons] at allNow
    have keptOne : WellKept (noteSighting one.1 one.2 seen) := wellKept_noteSighting kept
    obtain ⟨wellKept, isHeld⟩ := ih keptOne allNow.2
    refine ⟨wellKept, fun key time => ?_⟩
    rw [foldl_cons, isHeld, mem_heldIn_noteSighting kept, allNow.1, map_cons,
      mem_cons]
    tauto

theorem mem_heldIn_pruned {at_ : Time} {values : Thresholds} {key : (Str × Str × Str) × Str}
    {time : Time} :
    (key, time) ∈ heldIn (seen.filterMap (pruned at_ values)) ↔
      (key, time) ∈ heldIn seen ∧ InWindow values at_ time := by
  constructor
  · rintro ⟨entry, member, isPlace, shown, inside, isPort, isTime⟩
    obtain ⟨old, oldMember, isKept⟩ := mem_filterMap.mp member
    rw [(pruned_eq_some_iff.mp isKept).1] at isPlace inside
    obtain ⟨oldInside, fresh⟩ := mem_filter.mp inside
    refine ⟨⟨old, oldMember, isPlace, shown, oldInside, isPort, isTime⟩, ?_⟩
    dsimp only at isTime
    rw [← isTime]
    exact of_decide_eq_true fresh
  · rintro ⟨⟨entry, member, isPlace, shown, inside, isPort, isTime⟩, fresh⟩
    dsimp only at isTime
    rw [← isTime] at fresh
    have stays : shown ∈ entry.ports.filter (fun sighting => InWindow values at_ sighting.at_) :=
      mem_filter.mpr ⟨inside, decide_eq_true fresh⟩
    refine ⟨{ entry with ports := _ }, mem_filterMap.mpr ⟨entry, member,
      pruned_eq_some_iff.mpr ⟨rfl, ?_⟩⟩, isPlace, shown, stays, isPort, isTime⟩
    exact ne_nil_of_mem stays

theorem wellKept_pruned {at_ : Time} {values : Thresholds} (kept : WellKept seen) :
    WellKept (seen.filterMap (pruned at_ values)) := by
  refine ⟨nodup_map_filterMap (fun _ _ => place_of_pruned) kept.places, ?_⟩
  intro entry member
  obtain ⟨old, oldMember, isKept⟩ := mem_filterMap.mp member
  rw [(pruned_eq_some_iff.mp isKept).1]
  exact (kept.ports old oldMember).sublist (filter_sublist.map _)

end Kept

/-! ### One collection after another -/

section Runs

variable [Readers] {values : Thresholds}

def Visit.look (visit : Visit) : Log.Look ((Str × Str × Str) × Str) Time :=
  ⟨visit.at_, {key | key ∈ (sightingsOf visit.collected visit.at_).map (fun one =>
    (one.1, one.2.port))}⟩

theorem time_of_sightingsOf {collected : Collected} {at_ : Time}
    {noted : (Str × Str × Str) × Sighting} (member : noted ∈ sightingsOf collected at_) :
    noted.2.at_ = at_ := by
  obtain ⟨pair, _, inside⟩ := mem_flatMap.mp member
  obtain ⟨flow, _, isSighting⟩ := mem_filterMap.mp inside
  unfold sightingOf at isSighting
  split at isSighting
  · cases isSighting
    rfl
  · cases isSighting

theorem heldIn_sightings {seen : List Seen} (kept : WellKept seen) (visit : Visit) :
    WellKept (sightings visit.collected visit.at_ values seen) ∧
      heldIn (sightings visit.collected visit.at_ values seen) =
        Log.look (InWindow values) (heldIn seen) visit.look := by
  obtain ⟨notedKept, isHeld⟩ := mem_heldIn_foldl kept
    (fun one (member : one ∈ sightingsOf visit.collected visit.at_) => time_of_sightingsOf member)
  rw [sightings_eq]
  refine ⟨wellKept_pruned notedKept, ?_⟩
  ext ⟨key, time⟩
  rw [mem_heldIn_pruned, isHeld]
  rfl

def placesAfter (values : Thresholds) (visits : List Visit) : List Seen :=
  visits.foldl (fun seen visit => sightings visit.collected visit.at_ values seen) []

theorem heldIn_placesAfter (visits : List Visit) :
    WellKept (placesAfter values visits) ∧
      heldIn (placesAfter values visits) = Log.looks (InWindow values) (visits.map Visit.look) := by
  induction visits using List.reverseRecOn with
  | nil =>
    refine ⟨wellKept_nil, ?_⟩
    ext kept
    constructor
    · rintro ⟨entry, member, _⟩
      cases member
    · intro nothing
      cases nothing
  | append_singleton earlier last ih =>
    obtain ⟨kept, held⟩ := ih
    have isLast : placesAfter values (earlier ++ [last]) =
        sightings last.collected last.at_ values (placesAfter values earlier) :=
      foldl_concat _ _ _ _
    rw [isLast, map_append, map_singleton, Log.looks_append_singleton, ← held]
    exact heldIn_sightings kept last

theorem seenAfter_eq {visits : List Visit} (named : ∀ visit ∈ visits, Named visit.collected) :
    seenAfter values visits = keyed (placesAfter values visits) ∧
      ∀ entry ∈ placesAfter values visits, PlaceNamed entry.place := by
  induction visits using List.reverseRecOn with
  | nil => exact ⟨rfl, nofun⟩
  | append_singleton earlier last ih =>
    rw [forall_mem_append, forall_mem_singleton] at named
    obtain ⟨same, placesNamed⟩ := ih named.1
    have isLast : placesAfter values (earlier ++ [last]) =
        sightings last.collected last.at_ values (placesAfter values earlier) :=
      foldl_concat _ _ _ _
    have isSeen : seenAfter values (earlier ++ [last]) =
        scanSeen last.collected last.at_ values (seenAfter values earlier) :=
      foldl_concat _ _ _ _
    rw [isLast, isSeen, same]
    exact scanSeen_keyed named.2 placesNamed

theorem exists_sightingOf_iff {at_ : Time} {pair : Controller × Switch} {flow : ReadFlow}
    {connection dpidHex source port : Str} :
    (∃ one, sightingOf at_ pair flow = some one ∧
        (one.1, one.2.port) = ((connection, dpidHex, source), port)) ↔
      (pair.1.connection = connection ∧ pair.2.dpidHex = dpidHex) ∧
        address flow.match_ .src = some source ∧ dstPort flow.match_ = some port := by
  unfold sightingOf
  constructor
  · rintro ⟨one, isSighting, isKey⟩
    split at isSighting
    · rename_i isPort isSource
      cases isSighting
      cases isKey
      exact ⟨⟨rfl, rfl⟩, isSource, isPort⟩
    · cases isSighting
  · rintro ⟨⟨rfl, rfl⟩, isSource, isPort⟩
    rw [isSource, isPort]
    exact ⟨_, rfl, rfl⟩

omit [Readers] in
theorem mem_countedOn {collected : Collected} {connection dpidHex : Str} {switch : Switch} :
    switch ∈ countedOn collected connection dpidHex ↔
      ∃ pair ∈ switches collected, portsCounted pair.2 ∧
        (pair.1.connection = connection ∧ pair.2.dpidHex = dpidHex) ∧ pair.2 = switch := by
  unfold countedOn
  simp only [mem_map, mem_filter, Bool.and_eq_true, decide_eq_true_eq, and_assoc]

theorem mem_look_sees {visit : Visit} {connection dpidHex source port : Str} :
    ((connection, dpidHex, source), port) ∈ visit.look.sees ↔
      port ∈ portsNamed visit.collected connection dpidHex source := by
  show _ ∈ (sightingsOf visit.collected visit.at_).map _ ↔ _
  unfold portsNamed sightingsOf
  rw [mem_map, mem_flatMap]
  constructor
  · rintro ⟨one, member, isKey⟩
    obtain ⟨pair, isPair, inside⟩ := mem_flatMap.mp member
    obtain ⟨flow, isFlow, isSighting⟩ := mem_filterMap.mp inside
    obtain ⟨isSwitch, isSource, isPort⟩ := exists_sightingOf_iff.mp ⟨one, isSighting, isKey⟩
    obtain ⟨inCollection, counted⟩ := mem_filter.mp isPair
    refine ⟨pair.2, mem_countedOn.mpr ⟨pair, inCollection, counted, isSwitch, rfl⟩,
      mem_filterMap.mpr ⟨flow, isFlow, ?_⟩⟩
    rw [if_pos isSource, isPort]
  · rintro ⟨switch, isSwitch, inside⟩
    obtain ⟨flow, isFlow, isPort⟩ := mem_filterMap.mp inside
    obtain ⟨pair, inCollection, counted, isNamed, rfl⟩ := mem_countedOn.mp isSwitch
    split at isPort
    · rename_i isSource
      have shown : ∃ one, sightingOf visit.at_ pair flow = some one ∧
          (one.1, one.2.port) = ((connection, dpidHex, source), port) :=
        exists_sightingOf_iff.mpr ⟨isNamed, isSource, isPort⟩
      obtain ⟨one, isSighting, isKey⟩ := shown
      exact ⟨one, mem_flatMap.mpr ⟨pair, mem_filter.mpr ⟨inCollection, counted⟩,
        mem_filterMap.mpr ⟨flow, isFlow, isSighting⟩⟩, isKey⟩
    · cases isPort

omit [Readers] in
theorem inWindow_later (now old new : Time) (fresh : InWindow values now old) (after : old ≤ new) :
    InWindow values now new := by
  have less : ((now - new : Int) : ℚ) ≤ ((now - old : Int) : ℚ) := by
    exact_mod_cast Int.sub_le_sub_left after now
  exact less.trans fresh

omit [Readers] in
theorem inWindow_sooner (now before time : Time) (fresh : InWindow values now time)
    (notAfter : before ≤ now) : InWindow values before time := by
  have less : ((before - time : Int) : ℚ) ≤ ((now - time : Int) : ℚ) := by
    exact_mod_cast Int.sub_le_sub_right notAfter time
  exact less.trans fresh

/-- **What is kept at a place is what the window's flows name there.** -/
theorem exists_heldIn_iff {earlier : List Visit} {last : Visit}
    (inOrder : (earlier ++ [last]).Pairwise (fun one other => one.at_ ≤ other.at_))
    {connection dpidHex source port : Str} :
    (∃ time, (((connection, dpidHex, source), port), time) ∈
        heldIn (placesAfter values (earlier ++ [last]))) ↔
      port ∈ windowPorts values (earlier ++ [last]) last.at_ connection dpidHex source := by
  have joined : (earlier ++ [last]).map Visit.look = earlier.map Visit.look ++ [last.look] := by
    rw [map_append, map_singleton]
  have looksInOrder : (earlier.map Visit.look ++ [last.look]).Pairwise
      (fun one other => one.time ≤ other.time) := by
    rw [← joined, pairwise_map]
    exact inOrder
  rw [(heldIn_placesAfter _).2, joined, Log.held_iff inWindow_later inWindow_sooner looksInOrder,
    ← joined]
  unfold windowPorts
  rw [mem_dedup, mem_flatMap]
  constructor
  · rintro ⟨one, member, fresh, sees⟩
    obtain ⟨visit, isVisit, rfl⟩ := mem_map.mp member
    exact ⟨visit, mem_filter.mpr ⟨isVisit, decide_eq_true fresh⟩, mem_look_sees.mp sees⟩
  · rintro ⟨visit, member, isNamed⟩
    obtain ⟨isVisit, fresh⟩ := mem_filter.mp member
    exact ⟨visit.look, mem_map_of_mem isVisit, of_decide_eq_true fresh,
      mem_look_sees.mpr isNamed⟩

theorem ports_length {earlier : List Visit} {last : Visit}
    (inOrder : (earlier ++ [last]).Pairwise (fun one other => one.at_ ≤ other.at_)) {entry : Seen}
    (member : entry ∈ placesAfter values (earlier ++ [last])) :
    entry.ports.length = (windowPorts values (earlier ++ [last]) last.at_ entry.connection
      entry.dpidHex entry.source).length := by
  have kept : WellKept (placesAfter values (earlier ++ [last])) :=
    (heldIn_placesAfter (earlier ++ [last])).1
  rw [← length_map Sighting.port]
  apply List.Perm.length_eq
  have distinct : (windowPorts values (earlier ++ [last]) last.at_ entry.connection entry.dpidHex
      entry.source).Nodup := nodup_dedup _
  rw [perm_ext_iff_of_nodup (kept.ports entry member) distinct]
  intro port
  rw [← exists_heldIn_iff inOrder]
  constructor
  · intro isPort
    obtain ⟨sighting, inside, isSighted⟩ := mem_map.mp isPort
    exact ⟨sighting.at_, entry, member, rfl, sighting, inside, isSighted, rfl⟩
  · rintro ⟨time, other, otherMember, isPlace, sighting, inside, isSighted, _⟩
    have same : other = entry := inj_on_of_nodup_map kept.places otherMember member isPlace
    rw [same] at inside
    exact mem_map.mpr ⟨sighting, inside, isSighted⟩

omit [Readers] in
theorem countedSwitch_isSome {collected : Collected} {entry : Seen} :
    (countedSwitch collected entry).isSome ↔
      countedOn collected entry.connection entry.dpidHex ≠ [] := by
  unfold countedSwitch countedOn
  rw [List.find?_isSome, ne_eq, map_eq_nil_iff, filter_eq_nil_iff]
  simp only [mem_reverse, not_forall, not_not, exists_prop]

omit [Readers] in
theorem exists_scan_iff {collected : Collected} {seen : List Seen}
    {connection dpidHex source : Str} :
    (∃ detection ∈ scans collected values seen, detection.key =
        ⟨.scan, collected.network, connection, dpidHex, .source source⟩) ↔
      ∃ entry ∈ seen, entry.place = (connection, dpidHex, source) ∧
        countedOn collected connection dpidHex ≠ [] ∧
        values.scanPorts ≤ (entry.ports.length : ℚ) := by
  constructor
  · rintro ⟨detection, member, isKey⟩
    obtain ⟨entry, isEntry, isDetection⟩ := mem_filterMap.mp member
    split at isDetection
    · rename_i controller switch found
      have counted := countedSwitch_isSome.mp (Option.isSome_of_eq_some found)
      have isNamed := List.find?_some found
      simp only [Bool.and_eq_true, decide_eq_true_eq] at isNamed
      split at isDetection
      · cases isDetection
      · rename_i enough
        cases isDetection
        injection isKey with _ _ isConnection isSwitch isSource
        injection isSource with isSource
        rw [isNamed.1.2] at isConnection
        rw [isNamed.2] at isSwitch
        rw [isConnection, isSwitch] at counted
        exact ⟨entry, isEntry, Prod.ext isConnection (Prod.ext isSwitch isSource), counted,
          not_lt.mp enough⟩
    · cases isDetection
  · rintro ⟨entry, isEntry, isPlace, counted, enough⟩
    injection isPlace with isConnection rest
    injection rest with isSwitch isSource
    rw [← isConnection, ← isSwitch] at counted
    obtain ⟨⟨controller, switch⟩, found⟩ :=
      Option.isSome_iff_exists.mp (countedSwitch_isSome.mpr counted)
    have isNamed := List.find?_some found
    simp only [Bool.and_eq_true, decide_eq_true_eq] at isNamed
    refine ⟨scanDetection collected entry controller switch,
      mem_filterMap.mpr ⟨entry, isEntry, ?_⟩, ?_⟩
    · rw [found]
      exact if_neg (not_lt.mpr enough)
    · show (⟨.scan, collected.network, controller.connection, switch.dpidHex,
        .source entry.source⟩ : Key) = _
      rw [isNamed.1.2, isNamed.2, isConnection, isSwitch, isSource]

/-- **The incremental count is the window's**: after collections in the order of their times, a
source is detected on a switch exactly where its ports are counted now and the flows that name the
source there, over the collections of the window, name enough of them. -/
theorem scan_iff_window {earlier : List Visit} {last : Visit}
    (named : ∀ visit ∈ earlier ++ [last], Named visit.collected)
    (inOrder : (earlier ++ [last]).Pairwise (fun one other => one.at_ ≤ other.at_))
    (positive : 0 < values.scanPorts) (connection dpidHex source : Str) :
    (∃ detection ∈ scanDetections last.collected values (seenAfter values (earlier ++ [last])),
        detection.key =
          ⟨.scan, last.collected.network, connection, dpidHex, .source source⟩) ↔
      countedOn last.collected connection dpidHex ≠ [] ∧
        values.scanPorts ≤ ((windowPorts values (earlier ++ [last]) last.at_ connection dpidHex
          source).length : ℚ) := by
  have places : (seenAfter values (earlier ++ [last])).map Prod.snd =
      placesAfter values (earlier ++ [last]) := by
    rw [(seenAfter_eq named).1]
    unfold keyed
    rw [List.map_map]
    exact List.map_id _
  unfold scanDetections
  rw [places, exists_scan_iff]
  constructor
  · rintro ⟨entry, member, isPlace, counted, enough⟩
    rw [ports_length inOrder member] at enough
    injection isPlace with isConnection rest
    injection rest with isSwitch isSource
    rw [isConnection, isSwitch, isSource] at enough
    exact ⟨counted, enough⟩
  · rintro ⟨counted, enough⟩
    have some_ :
        windowPorts values (earlier ++ [last]) last.at_ connection dpidHex source ≠ [] := by
      intro nothing
      rw [nothing, List.length_nil, Nat.cast_zero] at enough
      exact absurd enough (not_le.mpr positive)
    obtain ⟨port, isPort⟩ := List.exists_mem_of_ne_nil _ some_
    obtain ⟨time, entry, member, isPlace, _⟩ := (exists_heldIn_iff inOrder).mpr isPort
    refine ⟨entry, member, isPlace, counted, ?_⟩
    rw [ports_length inOrder member]
    injection isPlace with isConnection rest
    injection rest with isSwitch isSource
    rw [isConnection, isSwitch, isSource]
    exact enough

end Runs

/-! ### One source -/

namespace Spread

def flowTo (port : Int) : ReadFlow :=
  { dpid := 1, tableId := 0, priority := 10, cookie := 0
    match_ := [(.ipv4Src, .text "192.0.2.1".ascii), (.tcpDst, .int port)], actions := []
    idleTimeout := 0, hardTimeout := 0, packetCount := none, byteCount := none
    durationSec := none, id := showInt port }

/-- One switch whose flows name these ports, counted when there are any. -/
def visit (after : Int) (ports : List Int) : Visit :=
  ⟨⟨"lab".ascii, some (946684800 + after), .ok, [⟨"ryu".ascii, [0],
    [⟨1, "0000000000000001".ascii, ports.map flowTo, some ports.length, some ⟨ports ≠ []⟩, []⟩]⟩]⟩,
    946684800 + after⟩

def values : Thresholds := ⟨3, 60, 100, 5, 30, 200⟩

end Spread

open Spread in
/-- Three ports over a minute are a scan, the switch not counted in between. -/
theorem spread_scan_found :
    letI := plainReaders
    ∃ detection ∈ scanDetections (visit 60 [80]).collected values
        (seenAfter values ([visit 0 [22, 23], visit 30 []] ++ [visit 60 [80]])),
      detection.key = ⟨.scan, "lab".ascii, "ryu".ascii, "0000000000000001".ascii,
        .source "192.0.2.1".ascii⟩ := by
  let _ := plainReaders
  have named : ∀ one ∈ [visit 0 [22, 23], visit 30 []] ++ [visit 60 [80]],
      Named one.collected := by decide +kernel
  have inOrder : ([visit 0 [22, 23], visit 30 []] ++ [visit 60 [80]]).Pairwise
      (fun one other => one.at_ ≤ other.at_) := by decide +kernel
  exact (scan_iff_window named inOrder (by decide +kernel) _ _ _).mpr (by decide +kernel)

end Nmas.Sdn.Detect
