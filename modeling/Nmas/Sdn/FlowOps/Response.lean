import Mathlib.Order.MinMax
import Nmas.Sdn.FlowIntent.Exact
import Nmas.Sdn.FlowOps.Plan

/-!
Contract: the priority of a response's flow.

Owns: `disjoint` and `response_priority` of `sdn/flow_ops.py`, and exactly when a
response's flow stands above every flow that could take its packets.
-/

namespace Nmas.Sdn.FlowOps

open Nmas.Text List
open Nmas.Sdn.FlowIntent (normalMatch ReadMatch fields fields_holds fields_distinct exists_taken)
open Nmas.Sdn.MatchRules (normalise)

def responsePriorityFloor : Nat := 300

def responsePriorityStep : Nat := 10

/-- `==` of two values: a boolean is the number it stands for. -/
def equals : Value → Value → Bool
  | .bool flag, .int number | .int number, .bool flag => number = if flag then 1 else 0
  | one, other => one = other

section Responses

variable [Unicode] [Readers]

def disjoint (a b : Match) : Bool :=
  (normalMatch a).any (fun entry =>
    match (normalMatch b).get entry.1 with
    | none => false
    | some value => '/' ∉ entry.2.str && '/' ∉ value.str && !equals entry.2 value)

def IsRecorded (intentCookies : List Nat) (flow : Flow) : Prop :=
  isMercury flow.cookie = true ∧ flow.cookie ∈ intentCookies

omit [Unicode] [Readers] in
instance (intentCookies : List Nat) (flow : Flow) : Decidable (IsRecorded intentCookies flow) := by
  unfold IsRecorded
  infer_instance

/-- `others`: the flows the response's flow has to stand above, as the source finds them. -/
def others (flows : List Flow) (intentCookies : List Nat) (match_ : Option Match) : List Flow :=
  flows.filter (fun flow => ¬ IsRecorded intentCookies flow ∧
    match_.any (fun response => disjoint flow.match_ response) = false)

/-- The highest priority of a list of flows, zero of none. -/
def top (flows : List Flow) : Nat := (flows.map Flow.priority).foldl max 0

def responsePriority (flows : List Flow) (intentCookies : List Nat) (match_ : Option Match) : Nat :=
  min 0xFFFF (max responsePriorityFloor
    (top (others flows intentCookies match_) + responsePriorityStep))

/-- Some packet of the response's flow, as it is installed, is the other's too. -/
def Overlaps (flow : Flow) (response : Match) : Prop :=
  ∃ packet, FlowIntent.Match.Holds flow.match_ packet ∧
    FlowIntent.Match.Holds (normalise response) packet

omit [Unicode] [Readers] in
theorem lt_top_iff {flows : List Flow} {bound step : Nat} (large : step ≤ bound) :
    bound < top flows + step ↔ ∃ flow ∈ flows, bound < flow.priority + step := by
  have folded : ∀ (start : Nat) (flows : List Flow),
      bound < (flows.map Flow.priority).foldl max start + step ↔
        bound < start + step ∨ ∃ flow ∈ flows, bound < flow.priority + step := by
    intro start flows
    induction flows generalizing start with
    | nil => simp
    | cons flow rest ih =>
      rw [map_cons, foldl_cons, ih, exists_mem_cons_iff]
      have ofMax : bound < max start flow.priority + step ↔
          bound < start + step ∨ bound < flow.priority + step := by omega
      rw [ofMax, or_assoc]
  unfold top
  rw [folded]
  constructor
  · rintro (isStep | found)
    · omega
    · exact found
  · exact .inr

/-- A flow stands below a response exactly where it is below the highest priority there is and the
floor or the step over one that `disjoint` does not leave out is above it. -/
theorem lt_responsePriority_iff {flows : List Flow} {intentCookies : List Nat}
    {match_ : Option Match} {priority : Nat} :
    priority < responsePriority flows intentCookies match_ ↔
      priority < 0xFFFF ∧ (priority < responsePriorityFloor ∨
        ∃ other ∈ others flows intentCookies match_,
          priority < other.priority + responsePriorityStep) := by
  unfold responsePriority
  rw [lt_min_iff, lt_max_iff]
  apply and_congr_right
  intro _
  by_cases isLow : priority < responsePriorityFloor
  · simp [isLow]
  · apply or_congr_right
    apply lt_top_iff
    unfold responsePriorityFloor at isLow
    unfold responsePriorityStep
    omega

/-- **A response is not shadowed exactly where** every flow that is not recorded and shares a packet
with it is below the highest priority there is, and one that `disjoint` leaves out is below the floor
or the step over another that it does not. -/
theorem response_above_iff (flows : List Flow) (intentCookies : List Nat) (response : Match) :
    (∀ flow ∈ flows, ¬ IsRecorded intentCookies flow → Overlaps flow response →
        flow.priority < responsePriority flows intentCookies (some response)) ↔
      ∀ flow ∈ flows, ¬ IsRecorded intentCookies flow → Overlaps flow response →
        flow.priority < 0xFFFF ∧
          (disjoint flow.match_ response = true → flow.priority < responsePriorityFloor ∨
            ∃ other ∈ flows, ¬ IsRecorded intentCookies other ∧
              disjoint other.match_ response = false ∧
              flow.priority < other.priority + responsePriorityStep) := by
  have mem_others : ∀ other, other ∈ others flows intentCookies (some response) ↔
      other ∈ flows ∧ ¬ IsRecorded intentCookies other ∧ disjoint other.match_ response = false := by
    intro other
    unfold others
    rw [List.mem_filter, decide_eq_true_eq]
    rfl
  apply forall_congr'
  intro flow
  apply forall_congr'
  intro member
  apply forall_congr'
  intro notRecorded
  apply forall_congr'
  intro _
  rw [lt_responsePriority_iff]
  apply and_congr_right
  intro _
  constructor
  · rintro (isLow | ⟨other, isOther, isBelow⟩) _
    · exact Or.inl isLow
    · obtain ⟨inFlows, otherNot, meets⟩ := (mem_others other).mp isOther
      exact Or.inr ⟨other, inFlows, otherNot, meets, isBelow⟩
  · intro ofDisjoint
    cases isDisjoint : disjoint flow.match_ response with
    | false =>
      -- A flow that is not left out is itself stepped over.
      refine Or.inr ⟨flow, (mem_others flow).mpr ⟨member, notRecorded, isDisjoint⟩, ?_⟩
      unfold responsePriorityStep
      omega
    | true =>
      rcases ofDisjoint isDisjoint with isLow | ⟨other, inFlows, otherNot, meets, isBelow⟩
      · exact Or.inl isLow
      · exact Or.inr ⟨other, (mem_others other).mpr ⟨inFlows, otherNot, meets⟩, isBelow⟩

end Responses

def fromHost : Match := [(.ethType, .int 0x0800), (.ipv4Src, .text "10.0.0.1".ascii)]

/-- A flow that takes everything, at the highest priority there is. -/
def takesAll : Flow := ⟨1, 0, 0xFFFF, 0, [], [], 0, 0, none, none, none⟩

/-- A flow that names the EtherType in decimal digits behind a zero. -/
def padded : Flow := ⟨1, 0, 1000, 0, [(.ethType, .text "02048".ascii)], [], 0, 0, none, none, none⟩

/-- Plain readers that read no number behind a zero without its base. -/
@[reducible] def zeroReaders : Readers :=
  { plainReaders with
    int := fun base text =>
      if base = 0 ∧ 1 < text.length ∧ text.head? = some '0' then none else plainReaders.int base text }

/-- The first is tied with; the second is called disjoint and left standing above. -/
theorem response_shadowed :
    letI := basicLatin
    letI := zeroReaders
    (Overlaps takesAll fromHost ∧ ¬ IsRecorded [] takesAll ∧
        responsePriority [takesAll] [] (some fromHost) = takesAll.priority) ∧
      Overlaps padded fromHost ∧ ¬ IsRecorded [] padded ∧
        responsePriority [padded] [] (some fromHost) = 300 ∧ padded.priority = 1000 := by
  let _ := basicLatin
  let _ := zeroReaders
  have isResponse : @fields basicLatin zeroReaders (normalise fromHost) =
      .ok [(.ethType, .masked (.whole 0x0800)),
        (.ipv4Src, .masked ⟨0x0a000001, (2 ^ 32 - 1 : Nat), by decide⟩)] := by
    decide
  have isPadded : @fields basicLatin zeroReaders padded.match_ =
      .ok [(.ethType, .masked (.whole 0x0800))] := by
    decide
  obtain ⟨packet, takes⟩ := exists_taken (fields_distinct (by decide) isResponse)
  have takesResponse : FlowIntent.Match.Holds (normalise fromHost) packet :=
    (fields_holds (by unfold FlowIntent.Match.Consistent; decide) isResponse).mp takes
  have takesPadded : FlowIntent.Match.Holds padded.match_ packet := by
    apply (fields_holds (by unfold FlowIntent.Match.Consistent; decide) isPadded).mp
    unfold ReadMatch.Holds at takes ⊢
    rw [List.forall_mem_cons] at takes
    rw [List.forall_mem_singleton]
    exact takes.1
  refine ⟨⟨⟨packet, ⟨nofun, nofun⟩, takesResponse⟩, by decide, by decide⟩,
    ⟨packet, takesPadded, takesResponse⟩, by decide, by decide, rfl⟩

end Nmas.Sdn.FlowOps
