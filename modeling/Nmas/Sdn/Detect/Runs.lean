import Nmas.Sdn.Detect.Flooding

/-!
Contract: a network's collections, one after another.

Owns: the runs of `observe`, what each call answered and left, and what holds
of the ports over their limit in every state a run reaches.
-/

namespace Nmas.Sdn.Detect

open Nmas.Text
open Nmas.Alerts (Row Refusal)

/-- One call of `observe`: a collection, what it was judged by, and how the
alert history took it. -/
structure Call where
  collected : Collected
  intent : FlowIntent.Intent
  topo : Topology
  refusal : Option Refusal

structure Step where
  call : Call
  at_ : Time
  answer : Answer
  next : World

section Runs

variable [Unicode] [Readers] (network : Str) (values : Thresholds)

def Call.observeAt (call : Call) (world : World) (at_ : Time) : Answer × World :=
  Detect.observeAt values call.intent call.topo call.refusal world call.collected at_

/-- The calls of a run that judged their collection. A refused call changes
nothing. -/
def steps : World → List Call → List Step
  | _, [] => []
  | world, call :: rest =>
    match judgeable network call.collected world.state.collectedAt with
    | .ok at_ =>
      let result := call.observeAt values world at_
      ⟨call, at_, result.1, result.2⟩ :: steps result.2 rest
    | .error _ => steps world rest

def run : World → List Call → World
  | world, [] => world
  | world, call :: rest =>
    match judgeable network call.collected world.state.collectedAt with
    | .ok at_ => run (call.observeAt values world at_).2 rest
    | .error _ => run world rest

end Runs

theorem judgeable_not_older {network : Str} {collected : Collected} {last : Option Time}
    {at_ : Time} (judged : judgeable network collected last = .ok at_) :
    ∀ earlier ∈ last, earlier ≤ at_ := by
  unfold judgeable at judged
  split at judged
  · cases judged
  · split at judged
    · cases judged
    · split at judged
      · cases judged
      · split at judged
        · cases judged
        · rename_i notOlder
          injection judged with same
          intro earlier isLast
          rw [Option.mem_def] at isLast
          rw [isLast, same] at notOlder
          simpa using notOlder

theorem judgeable_network {network : Str} {collected : Collected} {last : Option Time}
    {at_ : Time} (judged : judgeable network collected last = .ok at_) :
    collected.network = network := by
  unfold judgeable at judged
  split at judged
  · cases judged
  · rename_i isNetwork
    exact not_not.mp isNetwork

def NetworkState.OverPast (state : NetworkState) : Prop :=
  ∀ id since, state.over_ id = some since → ∃ last ∈ state.collectedAt, since ≤ last

theorem emptyNetwork_overPast : emptyNetwork.OverPast := by
  intro id since isOver
  cases isOver

theorem NetworkState.OverPast.past {state : NetworkState} (past : state.OverPast)
    {network : Str} {collected : Collected} {at_ : Time}
    (judged : judgeable network collected state.collectedAt = .ok at_) : state.over_.Past at_ := by
  intro id since isOver
  obtain ⟨last, isLast, bound⟩ := past id since isOver
  exact le_trans bound (judgeable_not_older judged last isLast)

section Runs

variable [Unicode] [Readers] {network : Str} {values : Thresholds}

theorem observeAt_over (call : Call) (world : World) (at_ : Time) :
    (call.observeAt values world at_).2.state.over_ =
      (flood call.collected at_ world.state.baseline values world.state.over_ call.topo).over_ :=
  rfl

theorem judged_of_head {world : World} {calls : List Call} {first : Step}
    (isFirst : first ∈ (steps network values world calls).head?) :
    judgeable network first.call.collected world.state.collectedAt = .ok first.at_ := by
  induction calls with
  | nil => cases isFirst
  | cons call rest ih =>
    unfold steps at isFirst
    cases judged : judgeable network call.collected world.state.collectedAt with
    | error why =>
      rw [judged] at isFirst
      exact ih isFirst
    | ok at_ =>
      rw [judged] at isFirst
      cases isFirst
      exact judged

theorem observeAt_overPast {call : Call} {world : World} {at_ : Time}
    (past : world.state.over_.Past at_) :
    (call.observeAt values world at_).2.state.OverPast := by
  intro id since isOver
  rw [observeAt_over] at isOver
  exact ⟨at_, rfl, flood_past past id since isOver⟩

variable (network values) in
theorem run_overPast {world : World} (past : world.state.OverPast) (calls : List Call) :
    (run network values world calls).state.OverPast := by
  induction calls generalizing world with
  | nil => exact past
  | cons call rest ih =>
    unfold run
    split
    · rename_i at_ judged
      apply ih
      exact observeAt_overPast (past.past judged)
    · exact ih past

end Runs

end Nmas.Sdn.Detect
