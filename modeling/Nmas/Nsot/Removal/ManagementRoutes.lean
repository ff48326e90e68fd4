import Mathlib
import Nmas.Fixpoint.Rounds
import Nmas.Text.Addresses
import Nmas.Text.Str

/-!
Contract: the static routes a removal leaves alone.

Owns: `_route` and `_management_routes` of `nsot/removal.py`, and that the routes
protected are the least set closed under what a protected route needs.

Does not own: `host_addresses`; the addresses of this host are given, or could
not be read.

The loop is run with a bound on its rounds; it is shown to end.
-/

namespace Nmas.Nsot.Removal

open Nmas.Text List
open Nmas.Fixpoint (untilStill Honest)

/-! ### A route line -/

/-- The family of a route line, IPv6 or not, and what follows `route`. -/
def routeFamily (text : Str) : Option (Bool × Str) :=
  ((afterPrefix "ip route ".ascii text).map (false, ·)).or
    ((afterPrefix "ipv6 route ".ascii text).map (true, ·))

/-- What follows `vrf <name>` and a space, if something does. -/
def pastVrf (text : Str) : Option Str :=
  (afterPrefix "vrf ".ascii text).bind (fun named =>
    match named.span (fun c => !isSpace c) with
    | (_ :: _, ' ' :: rest) => if rest = [] then none else some rest
    | _ => none)

/-- `STATIC_ROUTE.match`: the family and the rest, on one line. -/
def staticRoute (text : Str) : Option (Bool × Str) :=
  (routeFamily text).bind (fun family =>
    let rest := (pastVrf family.2).getD family.2
    if rest = [] ∨ '\n' ∈ rest then none else some (family.1, rest))

/-- A route as it is read: its destination and its next hops. -/
abbrev Parsed := Network × List Address

abbrev Route := Str × Option Parsed

section Routes

variable [Readers]

def route (text : Str) : Option Parsed :=
  (staticRoute text).bind (fun read =>
    match read.1, words read.2 with
    | false, address :: mask :: hops =>
      (Readers.ipNetwork (address ++ '/' :: mask)).map (·, hops.filterMap Readers.ipAddress)
    | true, destination :: hops =>
      (Readers.ipNetwork destination).map (·, hops.filterMap Readers.ipAddress)
    | _, _ => none)

def staticRoutes (running : List (Str × List Str)) : List Route :=
  running.filterMap (fun entry =>
    if entry.2 = [] ∧ (staticRoute (strip entry.1)).isSome then
      some (strip entry.1, route (strip entry.1))
    else none)

end Routes

/-- `a.version == dest.version and a in dest`. -/
def holdsAddress (destination : Network) (address : Address) : Bool :=
  address.isV6 = destination.networkAddress.isV6 ∧
    address.number &&& destination.netmask = destination.networkAddress.number

/-! ### The loop -/

/-- The routes protected so far with the reason for each, and the addresses whose
path is protected with what each is. -/
structure Reach where
  out : List (Str × Str)
  targets : List (Address × Str)

/-- `out[text] = why`; a text is always given one reason at this point. -/
def put (out : List (Str × Str)) (text why : Str) : List (Str × Str) :=
  if text ∈ out.map Prod.fst then out else out ++ [(text, why)]

def addHops (said : Address → Str) : List (Address × Str) → List Address →
    List (Address × Str) × Bool
  | targets, [] => (targets, false)
  | targets, hop :: rest =>
    if hop ∈ targets.map Prod.fst then addHops said targets rest
    else ((addHops said (targets ++ [(hop, said hop)]) rest).1, true)

section Loop

variable [Readers]

def hopSaid (text : Str) (hop : Address) : Str :=
  Readers.compressed hop ++ ", the next hop of `".ascii ++ text ++ "`".ascii

def visit (state : Reach) (entry : Route) : Reach × Bool :=
  match entry.2 with
  | none => (state, false)
  | some (destination, hops) =>
    let added := addHops (hopSaid entry.1) state.targets hops
    if entry.1 ∈ state.out.map Prod.fst then (⟨state.out, added.1⟩, added.2)
    else
      match state.targets.find? (fun target => holdsAddress destination target.1) with
      | none => (state, false)
      | some hit =>
        (⟨put state.out entry.1 ("its destination ".ascii ++
            Readers.compressedNetwork destination ++ " holds ".ascii ++ hit.2), added.1⟩, true)

/-- A route protected whatever the addresses are. -/
def outright (out : List (Str × Str)) (entry : Route) : List (Str × Str) :=
  match entry.2 with
  | none => put out entry.1
      "a static route may be the path to the manager: this line is not read as one".ascii
  | some (destination, _) =>
    if destination.prefixlen = 0 then
      put out entry.1 ("a default route (".ascii ++ Readers.compressedNetwork destination ++
        ") may be the path to the manager".ascii)
    else out

/-- The addresses of this host that can be read, with what each is. -/
def hostTargets (addresses : List Str) : List (Address × Str) :=
  addresses.filterMap (fun text => (Readers.ipAddress text).map
    (·, text ++ ", an address of this host (the manager)".ascii))

/-- `_management_routes`, in at most `limit` rounds. -/
def managementRoutes (limit : Nat) (running : List (Str × List Str))
    (addresses : Option (List Str)) : Option (List (Str × Str)) :=
  let routes := staticRoutes running
  match addresses with
  | none => some (routes.foldl (fun out entry => put out entry.1
      ("a static route may be the path to the manager: this host's addresses could not be " ++
        "read, so which routes reach it is not known").ascii) [])
  | some addresses =>
    (untilStill visit routes limit ⟨routes.foldl outright [], hostTargets addresses⟩).map Reach.out

end Loop

/-! ### The routes to protect -/

/-- The routes protected once those of `kept` are: what is not read as a route, a
default route, and a route to an address of this host or to a next hop of a
protected route. -/
def protectedOnce (routes : List Route) (hosts : List Address) (kept : Set Str) : Set Str :=
  {text | ∃ parsed, (text, parsed) ∈ routes ∧
    ∀ destination hops, parsed = some (destination, hops) → destination.prefixlen = 0 ∨
      (∃ host ∈ hosts, holdsAddress destination host) ∨
        ∃ other ∈ kept, ∃ read, (other, some read) ∈ routes ∧
          ∃ hop ∈ read.2, holdsAddress destination hop}

theorem protectedOnce_mono (routes : List Route) (hosts : List Address) :
    Monotone (protectedOnce routes hosts) := by
  rintro less more below text ⟨parsed, member, reasons⟩
  refine ⟨parsed, member, fun destination hops isRead => ?_⟩
  refine (reasons destination hops isRead).imp_right (Or.imp_right ?_)
  rintro ⟨other, kept, through⟩
  exact ⟨other, below kept, through⟩

def protects (routes : List Route) (hosts : List Address) : Set Str →o Set Str :=
  ⟨protectedOnce routes hosts, protectedOnce_mono routes hosts⟩

def managed (routes : List Route) (hosts : List Address) : Set Str :=
  OrderHom.lfp (protects routes hosts)

section Managed

variable {routes others : List Route} {hosts : List Address}

theorem managed_eq : protects routes hosts (managed routes hosts) = managed routes hosts :=
  OrderHom.map_lfp _

theorem managed_mono (below : ∀ entry ∈ routes, entry ∈ others) :
    managed routes hosts ⊆ managed others hosts := by
  refine OrderHom.lfp.mono ?_
  rintro kept text ⟨parsed, member, reasons⟩
  refine ⟨parsed, below _ member, fun destination hops isRead => ?_⟩
  refine (reasons destination hops isRead).imp_right (Or.imp_right ?_)
  rintro ⟨other, isKept, read, isRoute, through⟩
  exact ⟨other, isKept, read, below _ isRoute, through⟩

end Managed

/-! ### What a turn leaves -/

section Turns

variable {out : List (Str × Str)} {targets : List (Address × Str)} {text why : Str}
  {said : Address → Str} {hops : List Address} {address : Address}

theorem mem_put_keys {other : Str} :
    other ∈ (put out text why).map Prod.fst ↔ other = text ∨ other ∈ out.map Prod.fst := by
  unfold put
  split_ifs with present
  · refine ⟨.inr, ?_⟩
    rintro (rfl | isOther)
    · exact present
    · exact isOther
  · rw [map_append, mem_append, map_singleton, mem_singleton, or_comm]

theorem mem_addHops :
    address ∈ (addHops said targets hops).1.map Prod.fst ↔
      address ∈ targets.map Prod.fst ∨ address ∈ hops := by
  induction hops generalizing targets with
  | nil => simp [addHops]
  | cons hop rest ih =>
    unfold addHops
    split_ifs with present
    · rw [ih, mem_cons]
      refine ⟨Or.imp_right .inr, ?_⟩
      rintro (isTarget | rfl | later)
      · exact .inl isTarget
      · exact .inl present
      · exact .inr later
    · rw [ih, map_append, mem_append, map_singleton,
        mem_singleton, mem_cons, or_assoc]

theorem addHops_still (still : (addHops said targets hops).2 = false) :
    (addHops said targets hops).1 = targets ∧ ∀ hop ∈ hops, hop ∈ targets.map Prod.fst := by
  induction hops generalizing targets with
  | nil => exact ⟨rfl, nofun⟩
  | cons hop rest ih =>
    unfold addHops at still ⊢
    split_ifs at still ⊢ with present
    · obtain ⟨same, known⟩ := ih still
      exact ⟨same, forall_mem_cons.mpr ⟨present, known⟩⟩

theorem addHops_changed (changed : (addHops said targets hops).2) :
    ∃ hop ∈ hops, hop ∉ targets.map Prod.fst := by
  induction hops generalizing targets with
  | nil => cases changed
  | cons hop rest ih =>
    unfold addHops at changed
    split_ifs at changed with present
    · obtain ⟨other, member, isNew⟩ := ih changed
      exact ⟨other, .tail _ member, isNew⟩
    · exact ⟨hop, .head _, present⟩

end Turns

section Loop

variable [Readers] {routes : List Route} {entry : Route} {state : Reach}

theorem visit_honest : Honest visit := by
  rintro ⟨out, targets⟩ ⟨text, parsed⟩ still
  unfold visit at still ⊢
  cases parsed with
  | none => rfl
  | some read =>
    dsimp only at still ⊢
    split_ifs at still ⊢ with present
    · rw [(addHops_still still).1]
    · cases found : targets.find? (fun target => holdsAddress read.1 target.1) with
      | none => rfl
      | some hit =>
        rw [found] at still
        cases still

/-- What every turn keeps: everything protected is managed, everything protected
outright is protected, and the targets are the hosts and some next hops of
protected routes. -/
structure Kept (routes : List Route) (hosts : List Address) (state : Reach) : Prop where
  managed_ : ∀ text ∈ state.out.map Prod.fst, text ∈ managed routes hosts
  outright_ : ∀ text parsed, (text, parsed) ∈ routes →
    (∀ read, parsed = some read → read.1.prefixlen = 0) → text ∈ state.out.map Prod.fst
  hosts_ : ∀ host ∈ hosts, host ∈ state.targets.map Prod.fst
  targets_ : ∀ address ∈ state.targets.map Prod.fst, address ∈ hosts ∨
    ∃ other ∈ managed routes hosts, ∃ read, (other, some read) ∈ routes ∧ address ∈ read.2

variable {hosts : List Address}

theorem visit_kept (member : entry ∈ routes) (kept : Kept routes hosts state) :
    Kept routes hosts (visit state entry).1 := by
  obtain ⟨text, parsed⟩ := entry
  cases parsed with
  | none => exact kept
  | some read =>
    unfold visit
    dsimp only
    -- A managed route's hops may become targets.
    have withHops (isManaged : text ∈ managed routes hosts) :
        ∀ address ∈ (addHops (hopSaid text) state.targets read.2).1.map Prod.fst,
          address ∈ hosts ∨ ∃ other ∈ managed routes hosts, ∃ read,
            (other, some read) ∈ routes ∧ address ∈ read.2 := by
      intro address isTarget
      rcases mem_addHops.mp isTarget with before | isHop
      · exact kept.targets_ address before
      · exact .inr ⟨text, isManaged, read, member, isHop⟩
    split_ifs with present
    · exact ⟨kept.managed_, kept.outright_,
        fun host isHost => mem_addHops.mpr (.inl (kept.hosts_ host isHost)),
        withHops (kept.managed_ text present)⟩
    · cases found : state.targets.find? (fun target => holdsAddress read.1 target.1) with
      | none => exact kept
      | some hit =>
        have isTarget := mem_map_of_mem (f := Prod.fst) (mem_of_find?_eq_some found)
        have holds : holdsAddress read.1 hit.1 := by
          simpa using List.find?_some found
        have isManaged : text ∈ managed routes hosts := by
          rw [← managed_eq]
          refine ⟨some read, member, fun destination hops isRead => .inr ?_⟩
          obtain rfl := Option.some.inj isRead
          rcases kept.targets_ hit.1 isTarget with isHost | ⟨other, isOther, its, route, isHop⟩
          · exact .inl ⟨hit.1, isHost, holds⟩
          · exact .inr ⟨other, isOther, its, route, hit.1, isHop, holds⟩
        refine ⟨fun other isOut => ?_, fun other parsed isRoute atOnce => ?_,
          fun host isHost => mem_addHops.mpr (.inl (kept.hosts_ host isHost)),
          withHops isManaged⟩
        · rcases mem_put_keys.mp isOut with rfl | before
          · exact isManaged
          · exact kept.managed_ other before
        · exact mem_put_keys.mpr (.inr (kept.outright_ other parsed isRoute atOnce))

end Loop

section Answer

variable [Readers] {routes : List Route} {hosts : List Address} {state : Reach}

/-! ### The loop's answer -/

theorem managed_of_still (kept : Kept routes hosts state)
    (still : ∀ entry ∈ routes, (visit state entry).2 = false) :
    managed routes hosts ⊆ {text | text ∈ state.out.map Prod.fst} := by
  refine OrderHom.lfp_le _ ?_
  rintro text ⟨parsed, member, reasons⟩
  cases parsed with
  | none => exact kept.outright_ text none member nofun
  | some read =>
    by_contra notOut
    have isStill := still _ member
    simp only [visit, if_neg (show text ∉ state.out.map Prod.fst from notOut)] at isStill
    cases found : state.targets.find? (fun target => holdsAddress read.1 target.1) with
    | some hit =>
      rw [found] at isStill
      cases isStill
    | none =>
      have holdsNone := List.find?_eq_none.mp found
      have notTarget {address : Address} (holds : holdsAddress read.1 address)
          (isTarget : address ∈ state.targets.map Prod.fst) : False := by
        obtain ⟨target, isMember, rfl⟩ := mem_map.mp isTarget
        exact holdsNone target isMember (by simpa using holds)
      rcases reasons read.1 read.2 rfl with default_ | ⟨host, isHost, holds⟩ |
        ⟨other, isOut, its, isRoute, hop, isHop, holds⟩
      · refine notOut (kept.outright_ text (some read) member fun its isRead => ?_)
        exact Option.some.inj isRead ▸ default_
      · exact notTarget holds (kept.hosts_ host isHost)
      · -- A protected route's turn changed nothing: its hops are targets.
        have otherStill := still _ isRoute
        simp only [visit, if_pos (show other ∈ state.out.map Prod.fst from isOut)] at otherStill
        exact notTarget holds ((addHops_still otherStill).2 hop isHop)

def remaining (routes : List Route) (state : Reach) : Nat :=
  ((routes.map Prod.fst).toFinset \ (state.out.map Prod.fst).toFinset).card +
    ((routes.flatMap (fun entry => entry.2.elim [] Prod.snd)).toFinset \
      (state.targets.map Prod.fst).toFinset).card

omit [Readers] in
private theorem missing_subset {α : Type} [DecidableEq α] {all less more : List α}
    (below : ∀ other ∈ less, other ∈ more) :
    all.toFinset \ more.toFinset ⊆ all.toFinset \ less.toFinset := by
  refine Finset.sdiff_subset_sdiff (Finset.Subset.refl _) fun other isLess => ?_
  exact mem_toFinset.mpr (below other (mem_toFinset.mp isLess))

omit [Readers] in
private theorem missing_lt {α : Type} [DecidableEq α] {all less more : List α} {one : α}
    (below : ∀ other ∈ less, other ∈ more) (isOne : one ∈ all) (isNew : one ∉ less)
    (isMore : one ∈ more) :
    (all.toFinset \ more.toFinset).card < (all.toFinset \ less.toFinset).card := by
  refine Finset.card_lt_card ((Finset.ssubset_iff_of_subset (missing_subset below)).mpr ⟨one, ?_, ?_⟩)
  · simp [isOne, isNew]
  · simp [isMore]

theorem visit_remaining {entry : Route} (member : entry ∈ routes)
    (changed : (visit state entry).2) :
    remaining routes (visit state entry).1 < remaining routes state := by
  obtain ⟨text, parsed⟩ := entry
  cases parsed with
  | none => cases changed
  | some read =>
    have hopsGrow : ∀ address ∈ state.targets.map Prod.fst,
        address ∈ (addHops (hopSaid text) state.targets read.2).1.map Prod.fst :=
      fun address isTarget => mem_addHops.mpr (.inl isTarget)
    unfold visit at changed ⊢
    dsimp only at changed ⊢
    split_ifs at changed ⊢ with present
    · obtain ⟨hop, isHop, isNew⟩ := addHops_changed changed
      have isAny : hop ∈ routes.flatMap (fun entry => entry.2.elim [] Prod.snd) :=
        mem_flatMap.mpr ⟨_, member, isHop⟩
      have less := missing_lt hopsGrow isAny isNew (mem_addHops.mpr (.inr isHop))
      unfold remaining
      dsimp only
      omega
    · cases found : state.targets.find? (fun target => holdsAddress read.1 target.1) with
      | none =>
        rw [found] at changed
        cases changed
      | some hit =>
        have outGrows (why : Str) : ∀ other ∈ state.out.map Prod.fst,
            other ∈ (put state.out text why).map Prod.fst :=
          fun other isOut => mem_put_keys.mpr (.inr isOut)
        have isText : text ∈ routes.map Prod.fst := mem_map_of_mem member
        have less := missing_lt (outGrows ("its destination ".ascii ++
          Readers.compressedNetwork read.1 ++ " holds ".ascii ++ hit.2)) isText present
          (mem_put_keys.mpr (.inl rfl))
        have noMore := Finset.card_le_card (@missing_subset _ _
          (routes.flatMap (fun entry => entry.2.elim [] Prod.snd)) _ _ hopsGrow)
        unfold remaining
        dsimp only
        omega

theorem mem_outright_keys {out : List (Str × Str)} {text : Str} :
    text ∈ (routes.foldl outright out).map Prod.fst ↔ text ∈ out.map Prod.fst ∨
      ∃ parsed, (text, parsed) ∈ routes ∧ ∀ read, parsed = some read → read.1.prefixlen = 0 := by
  induction routes generalizing out with
  | nil => simp
  | cons entry rest ih =>
    have first : text ∈ (outright out entry).map Prod.fst ↔ text ∈ out.map Prod.fst ∨
        text = entry.1 ∧ ∀ read, entry.2 = some read → read.1.prefixlen = 0 := by
      obtain ⟨other, parsed⟩ := entry
      cases parsed with
      | none => simp [outright, mem_put_keys, or_comm]
      | some read =>
        unfold outright
        dsimp only
        split_ifs with isDefault
        · simp [mem_put_keys, isDefault, or_comm]
        · simp [isDefault]
    rw [foldl_cons, ih, first, or_assoc]
    refine or_congr_right ⟨?_, ?_⟩
    · rintro (⟨rfl, atOnce⟩ | ⟨parsed, member, atOnce⟩)
      · exact ⟨entry.2, .head _, atOnce⟩
      · exact ⟨parsed, .tail _ member, atOnce⟩
    · rintro ⟨parsed, member, atOnce⟩
      rcases mem_cons.mp member with rfl | later
      · exact .inl ⟨rfl, atOnce⟩
      · exact .inr ⟨parsed, later, atOnce⟩

def hostsOf (addresses : List Str) : List Address := addresses.filterMap Readers.ipAddress

theorem hostTargets_keys (addresses : List Str) :
    (hostTargets addresses).map Prod.fst = hostsOf addresses := by
  unfold hostTargets hostsOf
  rw [map_filterMap]
  simp only [Option.map_map, Function.comp_def, Option.map_id']

theorem start_kept (routes : List Route) (addresses : List Str) :
    Kept routes (hostsOf addresses) ⟨routes.foldl outright [], hostTargets addresses⟩ where
  managed_ text isOut := by
    rcases mem_outright_keys.mp isOut with inNone | ⟨parsed, member, atOnce⟩
    · cases inNone
    · rw [← managed_eq]
      exact ⟨parsed, member, fun destination hops isRead => .inl (atOnce _ isRead)⟩
  outright_ text parsed member atOnce := mem_outright_keys.mpr (.inr ⟨parsed, member, atOnce⟩)
  hosts_ host isHost := by
    rw [hostTargets_keys]
    exact isHost
  targets_ address isTarget := by
    rw [hostTargets_keys] at isTarget
    exact .inl isTarget

theorem managementRoutes_managed {limit : Nat} {running : List (Str × List Str)}
    {addresses : List Str} {answer : List (Str × Str)}
    (ends : managementRoutes limit running (some addresses) = some answer) :
    {text | text ∈ answer.map Prod.fst} = managed (staticRoutes running) (hostsOf addresses) := by
  obtain ⟨result, isResult, rfl⟩ := Option.map_eq_some_iff.mp ends
  obtain ⟨kept, still⟩ := Fixpoint.untilStill_spec visit_honest
    (fun entry member state => visit_kept member) (start_kept _ addresses) isResult
  exact Set.Subset.antisymm kept.managed_ (managed_of_still kept still)

def roundsEnough (routes : List Route) : Nat :=
  routes.length + (routes.flatMap (fun entry => entry.2.elim [] Prod.snd)).length + 1

omit [Readers] in
theorem remaining_lt_roundsEnough (routes : List Route) (state : Reach) :
    remaining routes state < roundsEnough routes := by
  have few {α : Type} [DecidableEq α] (all held : List α) :
      (all.toFinset \ held.toFinset).card ≤ all.length :=
    (Finset.card_le_card Finset.sdiff_subset).trans (toFinset_card_le all)
  have texts := few (routes.map Prod.fst) (state.out.map Prod.fst)
  have hops := few (routes.flatMap (fun entry => entry.2.elim [] Prod.snd))
    (state.targets.map Prod.fst)
  rw [length_map] at texts
  unfold remaining roundsEnough
  omega

theorem managementRoutes_ends (running : List (Str × List Str)) (addresses : Option (List Str)) :
    ∃ answer, ∀ rounds, roundsEnough (staticRoutes running) ≤ rounds →
      managementRoutes rounds running addresses = some answer := by
  cases addresses with
  | none => exact ⟨_, fun rounds _ => rfl⟩
  | some addresses =>
    obtain ⟨result, ends⟩ := Fixpoint.untilStill_ends (remaining (staticRoutes running))
      visit_honest (fun entry member state => visit_kept member)
      (fun entry member state _ changed => visit_remaining member changed)
      (start_kept (staticRoutes running) addresses)
      (remaining_lt_roundsEnough (staticRoutes running) _)
    exact ⟨result.out, fun rounds enough =>
      congrArg (Option.map Reach.out) (Fixpoint.untilStill_more ends enough)⟩

/-- `_management_routes`. -/
def managementRoutesOf (running : List (Str × List Str)) (addresses : Option (List Str)) :
    List (Str × Str) :=
  (managementRoutes (roundsEnough (staticRoutes running)) running addresses).getD []

end Answer

/-- **The manager's routes are a least fixpoint.** The loop ends, what it protects
is the least set of routes that holds every route that is not read, every default
route, and every route to a host or to a next hop of one of its own; and the order
of the routes does not decide which these are. -/
theorem management_routes_least [Readers] (running : List (Str × List Str))
    (addresses : List Str) :
    ∃ answer limit,
      (∀ rounds, limit ≤ rounds →
        managementRoutes rounds running (some addresses) = some answer) ∧
      {text | text ∈ answer.map Prod.fst} =
        managed (staticRoutes running) (hostsOf addresses) ∧
      ∀ other, other.Perm running → ∀ rounds otherAnswer,
        managementRoutes rounds other (some addresses) = some otherAnswer →
          ∀ text, text ∈ otherAnswer.map Prod.fst ↔ text ∈ answer.map Prod.fst := by
  obtain ⟨answer, answers⟩ := managementRoutes_ends running (some addresses)
  have least := managementRoutes_managed (answers _ (le_refl _))
  refine ⟨answer, _, answers, least, ?_⟩
  intro other perm rounds otherAnswer otherEnds text
  have otherLeast := managementRoutes_managed otherEnds
  have sameRoutes : ∀ entry, entry ∈ staticRoutes other ↔ entry ∈ staticRoutes running :=
    fun entry => (perm.filterMap _).mem_iff
  have sameManaged : managed (staticRoutes other) (hostsOf addresses) =
      managed (staticRoutes running) (hostsOf addresses) :=
    Set.Subset.antisymm (managed_mono (fun entry => (sameRoutes entry).mp))
      (managed_mono (fun entry => (sameRoutes entry).mpr))
  rw [sameManaged, ← least] at otherLeast
  exact Set.ext_iff.mp otherLeast text

end Nmas.Nsot.Removal
