import Nmas.Dhcp.Reservations
import Nmas.Log.Machine

/-!
Contract: the reservations of a subnet stay unique.

Owns:
- what a plan that is not refused has checked;
- two reservations that share a client or an address, and a subnet in which none
  do;
- the runs of applied plans, when they keep every subnet so, and one that does
  not.
-/

namespace Nmas.Dhcp

open Nmas.Text
open Nmas.Nsot.IfNames (lower)
open Nmas.Log.Machine (run Along)

/-! ### What a plan has checked -/

section Text

variable {text : Str}

theorem mem_splitAt {separator c : Char} (member : c ∈ text) :
    c = separator ∨ ∃ part ∈ splitAt separator text, c ∈ part := by
  induction text with
  | nil => cases member
  | cons first rest ih =>
    unfold splitAt at ih ⊢
    rw [List.foldr_cons]
    by_cases isSeparator : first = separator
    · rw [if_pos isSeparator]
      rcases List.mem_cons.mp member with isFirst | isRest
      · exact .inl (isFirst.trans isSeparator)
      · refine (ih isRest).imp_right ?_
        rintro ⟨part, isPart, inPart⟩
        exact ⟨part, .tail _ isPart, inPart⟩
    · rw [if_neg isSeparator]
      cases isParts : List.foldr _ [[]] rest with
      | nil =>
        rcases List.mem_cons.mp member with isFirst | isRest
        · exact .inr ⟨[first], .head _, isFirst ▸ List.mem_singleton_self _⟩
        · rcases ih isRest with isOne | ⟨part, isPart, -⟩
          · exact .inl isOne
          · rw [isParts] at isPart
            cases isPart
      | cons part parts =>
        rcases List.mem_cons.mp member with isFirst | isRest
        · exact .inr ⟨first :: part, .head _, isFirst ▸ (.head _)⟩
        · refine (ih isRest).imp_right ?_
          rintro ⟨one, isOne, inOne⟩
          rw [isParts] at isOne
          rcases List.mem_cons.mp isOne with isSame | isLater
          · exact ⟨first :: part, .head _, .tail _ (isSame ▸ inOne)⟩
          · exact ⟨one, .tail _ isLater, inOne⟩

theorem isHex_char {c : Char} (hex : isHex text) (member : c ∈ text) :
    c = ':' ∨ c.isDigit ∨ ('a' ≤ c ∧ c ≤ 'f') := by
  unfold isHex at hex
  have bytes := (of_decide_eq_true hex).2
  rcases @mem_splitAt _ (':') _ member with isColon | ⟨part, isPart, inPart⟩
  · exact .inl isColon
  · exact .inr ((bytes part isPart).2 c inPart)

theorem isHex_ne_nil (hex : isHex text) : text ≠ [] := by
  rintro rfl
  cases hex

theorem norm_hex (hex : isHex text) : norm text = text := by
  have plain (c : Char) (member : c ∈ text) :
      isSpace c = false ∧ (if c.toLower = '-' then ':' else c.toLower) = c := by
    have codes : c.toNat = 58 ∨ (48 ≤ c.toNat ∧ c.toNat ≤ 57) ∨ (97 ≤ c.toNat ∧ c.toNat ≤ 102) := by
      rcases isHex_char hex member with isColon | isDigit | ⟨least, most⟩
      · exact .inl (isColon ▸ rfl)
      · refine .inr (.inl ?_)
        simp only [Char.isDigit, Bool.and_eq_true, decide_eq_true_eq, ge_iff_le,
          UInt32.le_iff_toNat_le] at isDigit
        exact isDigit
      · exact .inr (.inr ⟨least, most⟩)
    have isChar : c = Char.ofNat c.toNat := (Char.ofNat_toNat c).symm
    generalize c.toNat = code at codes isChar
    subst isChar
    have small : code < 103 := by omega
    clear member
    revert codes
    revert small
    revert code
    decide
  have isStrip : strip text = text := strip_of_no_space fun c member => (plain c member).1
  unfold norm lower
  rw [isStrip, List.map_map]
  exact (List.map_congr_left fun c member => (plain c member).2).trans (List.map_id' text)

end Text

variable {family : Family} {config : Config} {files : Int → Option (List Entry)} {around : Around}
  {s : Values} {planned : Plan} {before : Option Entry} {op : Op} {mine : List Entry}
  {subnet : Subnet} {leases : List Lease} {after entry other : Entry} {key : Ident}

theorem text_injective {key other : Ident} (same : key.text = other.text) : key = other := by
  revert same
  cases key <;> cases other <;> decide

theorem text_ne_nil : key.text ≠ [] := by
  cases key <;> decide

section Reads

variable [Readers]

theorem afterOf_ok (isAfter : afterOf family config leases subnet before op s = .ok after) :
    ∃ key, key.text = s.key ∧ isHex s.identity ∧
      (Readers.ipAddress s.address).isSome ∧
      others family config subnet.id before key s.identity s.address = [] ∧
      after = entryOf family key s.identity s.address (hostnameOf before s) before := by
  simp only [afterOf] at isAfter
  split at isAfter
  · cases isAfter
  · rename_i key isKey
    split at isAfter
    · cases isAfter
    · rename_i isIdentity
      split at isAfter
      · cases isAfter
      · rename_i address isAddress
        split at isAfter
        · cases isAfter
        · split at isAfter
          · cases isAfter
          · split at isAfter
            · cases isAfter
            · split at isAfter
              · cases isAfter
              · rename_i isAlone
                split at isAfter
                · cases isAfter
                · split at isAfter
                  · cases isAfter
                  · have isText := List.find?_some isKey
                    have hex : isHex s.identity := by
                      by_contra notHex
                      exact isIdentity (.inl (by simpa using notHex))
                    refine ⟨key, of_decide_eq_true isText, hex, ?_, isAlone,
                      (Except.ok.inj isAfter).symm⟩
                    rw [isAddress]
                    rfl

/-- **A plan that is not refused.** -/
theorem plan_ok (isPlan : plan (some config) files around s = .ok planned) :
    ∃ subnet mine leases, config.subnets.filter (fun one => one.id = planned.subnetId) = [subnet] ∧
      subnet.id = planned.subnetId ∧ files planned.subnetId = some mine ∧
      beforeOf planned.family planned.op s.was mine = .ok planned.before ∧
      ((planned.op = .remove ∧ planned.after = none) ∨
        planned.op ≠ .remove ∧ ∃ after, planned.after = some after ∧
          afterOf planned.family config leases subnet planned.before planned.op s = .ok after) := by
  simp only [plan] at isPlan
  split at isPlan
  · cases isPlan
  · rename_i op isOp
    split at isPlan
    · cases isPlan
    · rename_i family isFamily
      split at isPlan
      · cases isPlan
      · rename_i subnetId isSubnet
        split at isPlan
        · cases isPlan
        · split at isPlan
          · rename_i subnet isFound
            have isId : subnet.id = subnetId := by
              have member : subnet ∈ config.subnets.filter (fun one => one.id = subnetId) := by
                rw [isFound]
                exact .head _
              exact of_decide_eq_true (List.mem_filter.mp member).2
            iterate 6
              split at isPlan
              · cases isPlan
            · cases isPlan
            · rename_i mine leases isMine isLeases
              split at isPlan
              · cases isPlan
              · rename_i before isBefore
                split at isPlan
                · cases isPlan
                  exact ⟨subnet, mine, leases, isFound, isId, isMine, isBefore, .inl ⟨rfl, rfl⟩⟩
                · split at isPlan
                  · cases isPlan
                  · rename_i after isAfter
                    cases isPlan
                    exact ⟨subnet, mine, leases, isFound, isId, isMine, isBefore,
                      .inr ⟨nofun, after, rfl, isAfter⟩⟩
                · split at isPlan
                  · cases isPlan
                  · rename_i after isAfter
                    cases isPlan
                    exact ⟨subnet, mine, leases, isFound, isId, isMine, isBefore,
                      .inr ⟨nofun, after, rfl, isAfter⟩⟩
          · cases isPlan

end Reads

theorem beforeOf_ok {was : Str} (isBefore : beforeOf family op was mine = .ok before) :
    (op = .add ∧ before = none) ∨ ∃ entry, before = some entry := by
  cases op with
  | add =>
    cases isBefore
    exact .inl ⟨rfl, rfl⟩
  | edit | remove =>
    simp only [beforeOf] at isBefore
    split at isBefore
    · rename_i entry isFound
      cases isBefore
      exact .inr ⟨entry, rfl⟩
    · cases isBefore

theorem addresses_entryOf {written hostname value : Str} :
    addresses (entryOf family key value written hostname before) =
      if family = .ipv4 ∧ written = [] then [] else [written] := by
  cases family with
  | ipv4 => by_cases isNil : written = [] <;> simp [addresses, entryOf, isNil]
  | ipv6 => simp [addresses, entryOf]

/-! ### Reservations that share a client or an address -/

section Shares

variable [Readers]

def SameAddress (one other : Str) : Prop :=
  one ≠ [] ∧ other ≠ [] ∧
    ∃ address, Readers.ipAddress one = some address ∧ Readers.ipAddress other = some address

/-- Two reservations name one client by the same kind of identifier, or one
address. -/
def Shares (one other : Entry) : Prop :=
  (∃ key, one.client.get key ≠ [] ∧ other.client.get key ≠ [] ∧
    norm (one.client.get key) = norm (other.client.get key)) ∨
  ∃ first ∈ addresses one, ∃ second ∈ addresses other, SameAddress first second

/-- No two reservations of a subnet share a client or an address. -/
def Unique (entries : List Entry) : Prop := entries.Pairwise (fun one other => ¬ Shares one other)

/-- **The condition**, of a reservation the subnet already has. Where it holds the
asked identifier it is named by it, and where it holds the asked address it
spells it as asked, and names its client if the reservation is new. -/
structure Plain (family : Family) (op : Op) (s : Values) (entry : Entry) : Prop where
  named : ∀ key, key.text = s.key → entry.client.get key ≠ [] →
    norm (entry.client.get key) = s.identity → identity family entry.client = (s.key, s.identity)
  spelled : ∀ address ∈ addresses entry, SameAddress address s.address →
    address = s.address ∧ (op = .add → identity family entry.client ≠ ([], []))

def stays (planned : Plan) (entry : Entry) : Bool :=
  planned.before.all (fun before =>
    identity planned.family entry.client ≠ identity planned.family before.client)

/-- **The reservation written.** It shares nothing with one the plan keeps exactly
where that one is plain. -/
theorem shares_iff {mine : List Entry} (isSubnet : subnet ∈ config.subnets)
    (isMine : subnet.reservations = mine) (member : entry ∈ mine)
    (isBefore : beforeOf family op s.was mine = .ok before)
    (isAfter : afterOf family config leases subnet before op s = .ok after)
    (kept : ∀ one, before = some one → identity family entry.client ≠ identity family one.client) :
    ¬ Shares entry after ↔ Plain family op s entry := by
  obtain ⟨key, isKey, hex, parses, alone, isEntry⟩ := afterOf_ok isAfter
  have notNil := isHex_ne_nil hex
  constructor
  · intro apart
    constructor
    · intro other isOther holds same
      cases text_injective (isKey.trans isOther.symm)
      refine absurd (.inl ⟨key, holds, ?_, ?_⟩) apart
      · rw [isEntry]
        simpa [entryOf] using notNil
      · rw [isEntry]
        simp only [entryOf, Client.named_get, if_true]
        rw [norm_hex hex]
        exact same
    · intro address isAddress same
      refine absurd (.inr ⟨address, isAddress, s.address, ?_, same⟩) apart
      rw [isEntry, addresses_entryOf, if_neg fun isEmpty => same.2.1 isEmpty.2]
      exact .head _
  · intro plain shares
    -- What the subnet already holds of the asked is a row the check has seen.
    have unseen (asked : identity family entry.client = (key.text, s.identity) ∨
          s.address ∈ addresses entry)
        (isOther : identity family entry.client ≠ identityOf family before) : False := by
      have isRow : held family (some (subnet.net, subnet.id)) subnet.subnet entry ∈
          others family config subnet.id before key s.identity s.address := by
        refine List.mem_filter.mpr ⟨List.mem_append_left _ ?_, decide_eq_true ⟨rfl, isOther, asked⟩⟩
        refine List.mem_flatMap.mpr ⟨subnet, isSubnet, List.mem_map_of_mem ?_⟩
        rw [isMine]
        exact member
      rw [alone] at isRow
      cases isRow
    have edited (one : Entry) (isOne : before = some one) :
        identity family entry.client ≠ identityOf family before := by
      rw [isOne]
      exact kept one isOne
    rcases shares with ⟨other, holds, written, same⟩ | ⟨address, isAddress, given, isGiven, same⟩
    · rw [isEntry] at written same
      simp only [entryOf, Client.named_get] at written same
      by_cases isOther : key = other
      · subst isOther
        simp only [if_true] at same
        rw [norm_hex hex] at same
        have named := plain.named key isKey holds same
        rw [← isKey] at named
        refine unseen (.inl named) ?_
        rcases beforeOf_ok isBefore with ⟨-, isNone⟩ | ⟨one, isOne⟩
        · rw [named, isNone]
          intro isEmpty
          exact text_ne_nil (congrArg Prod.fst isEmpty)
        · exact edited one isOne
      · rw [if_neg isOther] at written
        exact written rfl
    · rw [isEntry, addresses_entryOf] at isGiven
      have isAsked : given = s.address := by
        split at isGiven
        · cases isGiven
        · exact List.mem_singleton.mp isGiven
      subst isAsked
      obtain ⟨isSame, anonymous⟩ := plain.spelled address isAddress same
      rw [isSame] at isAddress
      refine unseen (.inr isAddress) ?_
      rcases beforeOf_ok isBefore with ⟨isAdd, isNone⟩ | ⟨one, isOne⟩
      · rw [isNone]
        exact anonymous isAdd
      · exact edited one isOne

/-! ### The runs of applied plans -/

/-- A family's subnets, each with the reservations of Mercury's file for it, which
Kea has loaded, and Kea's global reservations. -/
structure Server where
  family : Family
  subnets : List Subnet
  global : List Entry

/-- A change asked and applied: what the form sent, and what its plan found. -/
structure Applied where
  values : Values
  around : Around
  identifiers : List Str

namespace Server

def fileOf (server : Server) (subnetId : Int) : Option (List Entry) :=
  (server.subnets.find? (fun subnet => subnet.id = subnetId)).map Subnet.reservations

/-- A plan on the state the earlier ones left. -/
def plans (server : Server) (applied : Applied) : Except Refusal Plan :=
  plan (some ⟨server.subnets, server.global, applied.identifiers⟩) server.fileOf applied.around
    (ask applied.values)

def write (server : Server) (planned : Plan) : Server :=
  { server with
    subnets := server.subnets.map (fun subnet =>
      if subnet.id = planned.subnetId then
        { subnet with reservations := candidate planned subnet.reservations }
      else subnet) }

/-- A change of the family, written where it is not refused. -/
def step (server : Server) (applied : Applied) : Server :=
  match server.plans applied with
  | .ok planned => if planned.family = server.family then server.write planned else server
  | .error _ => server

/-- No two reservations of any subnet share a client or an address. -/
def AllUnique (server : Server) : Prop := ∀ subnet ∈ server.subnets, Unique subnet.reservations

/-- Every reservation an applied add or edit keeps in its subnet is plain to it. -/
def Plainly (server : Server) (applied : Applied) : Prop :=
  ∀ planned, server.plans applied = .ok planned → planned.family = server.family →
    planned.op ≠ .remove → ∀ subnet ∈ server.subnets, subnet.id = planned.subnetId →
      ∀ entry ∈ subnet.reservations, stays planned entry = true →
        Plain planned.family planned.op (ask applied.values) entry

variable {server : Server} {applied : Applied}

theorem write_unique (unique : server.AllUnique) (isSubnet : subnet ∈ server.subnets)
    (only : ∀ one ∈ server.subnets, one.id = planned.subnetId → one = subnet)
    (isId : subnet.id = planned.subnetId) :
    (server.write planned).AllUnique ↔ Unique (candidate planned subnet.reservations) := by
  constructor
  · intro written
    have isWritten := written _ (List.mem_map_of_mem isSubnet)
    rw [if_pos isId] at isWritten
    exact isWritten
  · intro isUnique one isOne
    obtain ⟨old, isOld, rfl⟩ := List.mem_map.mp isOne
    split
    · rename_i same
      rw [only old isOld same]
      exact isUnique
    · exact unique old isOld

theorem candidate_unique (unique : Unique mine) : Unique (candidate planned mine) ↔
    ∀ after ∈ planned.after, ∀ entry ∈ mine, stays planned entry → ¬ Shares entry after := by
  have kept : Unique (mine.filter (stays planned)) := unique.sublist List.filter_sublist
  have isCandidate : candidate planned mine = mine.filter (stays planned) ++ planned.after.toList := rfl
  rw [isCandidate, Unique, List.pairwise_append]
  constructor
  · rintro ⟨-, -, apart⟩ after isAfter entry isEntry isKept
    exact apart entry (List.mem_filter.mpr ⟨isEntry, isKept⟩) after (Option.mem_toList.mpr isAfter)
  · intro apart
    refine ⟨kept, ?_, fun entry isEntry after isAfter => ?_⟩
    · cases planned.after with
      | none => exact List.Pairwise.nil
      | some after => exact List.pairwise_singleton _ _
    · obtain ⟨member, isKept⟩ := List.mem_filter.mp isEntry
      exact apart after (Option.mem_toList.mp isAfter) entry member isKept

theorem step_unique_iff (server : Server) (applied : Applied) (unique : server.AllUnique) :
    (server.step applied).AllUnique ↔ server.Plainly applied := by
  unfold step
  cases isPlan : server.plans applied with
  | error refusal =>
    refine iff_of_true unique fun planned isOk => ?_
    cases isPlan.symm.trans isOk
  | ok planned =>
    simp only
    by_cases isFamily : planned.family = server.family
    · rw [if_pos isFamily]
      obtain ⟨subnet, mine, leases, isFound, isId, isMine, isBefore, isAfter⟩ := plan_ok isPlan
      have isSubnet : subnet ∈ server.subnets := by
        have member : subnet ∈ server.subnets.filter (fun one => one.id = planned.subnetId) := by
          rw [isFound]
          exact .head _
        exact (List.mem_filter.mp member).1
      have only (one : Subnet) (isOne : one ∈ server.subnets) (sameId : one.id = planned.subnetId) :
          one = subnet := by
        have member : one ∈ server.subnets.filter (fun one => one.id = planned.subnetId) :=
          List.mem_filter.mpr ⟨isOne, decide_eq_true sameId⟩
        rw [isFound] at member
        exact List.mem_singleton.mp member
      have isFile : subnet.reservations = mine := by
        have isFirst : server.subnets.find? (fun one => one.id = planned.subnetId) = some subnet := by
          rw [← List.head?_filter, isFound]
          rfl
        unfold fileOf at isMine
        rw [isFirst] at isMine
        exact Option.some_inj.mp isMine
      rw [write_unique unique isSubnet only isId, candidate_unique (unique subnet isSubnet)]
      -- A reservation kept has another identity than the one edited.
      have kept {entry : Entry} (isKept : stays planned entry) (one : Entry)
          (isOne : planned.before = some one) :
          identity planned.family entry.client ≠ identity planned.family one.client := by
        unfold stays at isKept
        rw [isOne] at isKept
        exact of_decide_eq_true isKept
      rcases isAfter with ⟨isRemove, isNone⟩ | ⟨notRemove, after, isSome, isAfter⟩
      · refine iff_of_true (fun after isSome => ?_) fun other isOk _ notRemove => ?_
        · rw [isNone] at isSome
          cases isSome
        · cases isPlan.symm.trans isOk
          exact absurd isRemove notRemove
      · have plain {entry : Entry} (isEntry : entry ∈ subnet.reservations)
            (isKept : stays planned entry = true) :
            ¬ Shares entry after ↔ Plain planned.family planned.op (ask applied.values) entry :=
          shares_iff isSubnet isFile (isFile ▸ isEntry) isBefore isAfter (kept isKept)
        constructor
        · intro apart other isOk _ _ one isOne sameId entry isEntry isKept
          cases isPlan.symm.trans isOk
          rw [only one isOne sameId] at isEntry
          exact (plain isEntry isKept).mp (apart after isSome entry isEntry isKept)
        · intro plainly other isOther entry isEntry isKept
          cases isSome.symm.trans isOther
          exact (plain isEntry isKept).mpr
            (plainly planned isPlan isFamily notRemove subnet isSubnet isId entry isEntry isKept)
    · rw [if_neg isFamily]
      refine iff_of_true unique fun other isOk sameFamily => ?_
      cases isPlan.symm.trans isOk
      exact absurd sameFamily isFamily

/-- **Reservations stay unique.** From subnets in which no two reservations share a
client or an address, none do after each applied plan exactly when what each add
and edit keeps is plain to it. -/
theorem unique_iff (server : Server) (plans : List Applied) (unique : server.AllUnique) :
    Along step (fun server applied => (server.step applied).AllUnique) server plans ↔
      Along step Plainly server plans :=
  Nmas.Log.Machine.along_iff (fun _ _ (_ : True) => trivial)
    (fun server applied _ unique => step_unique_iff server applied unique) trivial unique

end Server

end Shares

namespace Server

def reserved (family : Family) (identity address : String) : Entry :=
  entryOf family (if family = .ipv4 then .hwAddress else .duid) identity.ascii address.ascii [] none

def adds (family : Family) (subnet identity address : String) : Applied where
  values := ⟨"add".ascii, family.text, subnet.ascii,
    (if family = .ipv4 then Ident.hwAddress else .duid).text, identity.ascii, address.ascii, [], [], []⟩
  around := ⟨true, [], false, false, true, true, some []⟩
  identifiers := []

def lan (family : Family) (prefix_ identity address : String) : Server :=
  ⟨family, [⟨20, [], prefix_.ascii, [reserved family identity address]⟩], []⟩

theorem lan_unique [Readers] (family : Family) (prefix_ identity address : String) :
    (lan family prefix_ identity address).AllUnique := by
  intro subnet isSubnet
  cases List.mem_singleton.mp isSubnet
  exact List.pairwise_singleton _ _

theorem two_unique :
    letI : Readers := plainReaders
    let server := lan .ipv4 "10.0.0.0/24" "02:00:00:00:00:01" "10.0.0.5"
    let plans := [adds .ipv4 "20" "02:00:00:00:00:02" "10.0.0.6"]
    Along step (fun server applied => (server.step applied).AllUnique) server plans ↔
      Along step Plainly server plans :=
  letI : Readers := plainReaders
  unique_iff _ _ (lan_unique .ipv4 "10.0.0.0/24" "02:00:00:00:00:01" "10.0.0.5")

/-- Another client is reserved the same IPv6 address, spelled otherwise. -/
theorem respelled_shared :
    letI : Readers := colonReaders
    let server := lan .ipv6 "2001:db8::/64" "00:01" "2001:db8::5"
    server.AllUnique ∧
      ¬ (run step server [adds .ipv6 "20" "00:02" "2001:db8:0::5"]).AllUnique := by
  letI : Readers := colonReaders
  refine ⟨lan_unique _ _ _ _, fun unique => ?_⟩
  have isWritten : (run step (lan .ipv6 "2001:db8::/64" "00:01" "2001:db8::5")
      [adds .ipv6 "20" "00:02" "2001:db8:0::5"]).subnets =
        [⟨20, [], "2001:db8::/64".ascii, [reserved .ipv6 "00:01" "2001:db8::5",
          reserved .ipv6 "00:02" "2001:db8:0::5"]⟩] := by decide +kernel
  unfold AllUnique at unique
  rw [isWritten] at unique
  have apart := (List.pairwise_cons.mp (unique _ (List.mem_singleton_self _))).1 _
    (List.mem_singleton_self _)
  refine apart (Or.inr ⟨"2001:db8::5".ascii, List.mem_singleton_self _, "2001:db8:0::5".ascii,
    List.mem_singleton_self _, by decide, by decide, ?_⟩)
  have same : Readers.ipAddress "2001:db8::5".ascii = Readers.ipAddress "2001:db8:0::5".ascii ∧
      (Readers.ipAddress "2001:db8::5".ascii).isSome = true := by decide +kernel
  obtain ⟨address, isAddress⟩ := Option.isSome_iff_exists.mp same.2
  exact ⟨address, isAddress, same.1.symm.trans isAddress⟩

end Server

end Nmas.Dhcp
