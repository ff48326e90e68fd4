import Nmas.Nsot.IfNames
import Nmas.Text.Addresses

/-!
Contract: a subnet's reservations, and what a change of one is planned to write.

Owns: `dhcp_reservations.py` up to `apply`: `identity`, `norm`, `addresses`,
`every_reservation`, `_in`, `ask`, `_entry`, `_plan` with each of its refusals,
and the candidate list `apply` writes.

A reservation's other keys (its options, classes) are one text. Kea's answers
and files are what they read as; a preview's words, its hash and the file's
version are left out.
-/

namespace Nmas.Dhcp

open Nmas.Text
open Nmas.Nsot.IfNames (lower)

/-- `FAMILY`'s keys. -/
inductive Family where
  | ipv4
  | ipv6
deriving DecidableEq

def Family.text : Family → Str
  | .ipv4 => "IPv4".ascii
  | .ipv6 => "IPv6".ascii

/-- `s["family"]`, where it is a key of `FAMILY`. -/
def Family.ofText (text : Str) : Option Family :=
  [Family.ipv4, .ipv6].find? (fun family => family.text = text)

/-- `OPS`. -/
inductive Op where
  | add
  | edit
  | remove
deriving DecidableEq

def Op.text : Op → Str
  | .add => "add".ascii
  | .edit => "edit".ascii
  | .remove => "remove".ascii

def Op.ofText (text : Str) : Option Op := [Op.add, .edit, .remove].find? (fun op => op.text = text)

/-- The keys of `WORDS`: how Kea names a reservation's client. -/
inductive Ident where
  | hwAddress
  | duid
  | clientId
  | circuitId
  | flexId
deriving DecidableEq

def Ident.text : Ident → Str
  | .hwAddress => "hw-address".ascii
  | .duid => "duid".ascii
  | .clientId => "client-id".ascii
  | .circuitId => "circuit-id".ascii
  | .flexId => "flex-id".ascii

/-- `WORDS`, in order. -/
def idents : List Ident := [.hwAddress, .duid, .clientId, .circuitId, .flexId]

def offered : Family → List Ident
  | .ipv4 => [.hwAddress, .duid, .clientId]
  | .ipv6 => [.duid, .hwAddress]

/-- The keys a reservation or a lease names its client by; empty where absent. -/
structure Client where
  hwAddress : Str
  duid : Str
  clientId : Str
  circuitId : Str
  flexId : Str
deriving DecidableEq

namespace Client

def get (client : Client) : Ident → Str
  | .hwAddress => client.hwAddress
  | .duid => client.duid
  | .clientId => client.clientId
  | .circuitId => client.circuitId
  | .flexId => client.flexId

/-- `{key: value}`. -/
def named (key : Ident) (value : Str) : Client where
  hwAddress := if key = .hwAddress then value else []
  duid := if key = .duid then value else []
  clientId := if key = .clientId then value else []
  circuitId := if key = .circuitId then value else []
  flexId := if key = .flexId then value else []

@[simp] theorem named_get (key other : Ident) (value : Str) :
    (named key value).get other = if key = other then value else [] := by
  cases other <;> rfl

/-- A key's value by its text: `holder.get(key, "")`. -/
def getText (client : Client) (key : Str) : Str :=
  match idents.find? (fun ident => ident.text = key) with
  | some ident => client.get ident
  | none => []

end Client

/-- A reservation, as Mercury's file for its subnet holds it. -/
structure Entry where
  client : Client
  ipAddress : Str
  ipAddresses : List Str
  prefixes : List Str
  hostname : Str
  rest : Str
deriving DecidableEq

structure Lease where
  client : Client
  ipAddress : Str
  subnetId : Int

/-- A subnet of Kea's configuration; `net` is its shared network's name. -/
structure Subnet where
  id : Int
  net : Str
  subnet : Str
  reservations : List Entry
deriving DecidableEq

/-- What Kea answers `config-get` with: its subnets, those in shared networks
after the others, the global reservations and `host-reservation-identifiers`. -/
structure Config where
  subnets : List Subnet
  reservations : List Entry
  identifiers : List Str

/-- `norm`, of ASCII text. -/
def norm (value : Str) : Str := (lower (strip value)).map (fun c => if c = '-' then ':' else c)

/-- The keys of `identity`, in order. -/
def keys (family : Family) : List Ident :=
  offered family ++ idents.filter (fun key => key ∉ offered family)

def identity (family : Family) (client : Client) : Str × Str :=
  match (keys family).find? (fun key => client.get key ≠ []) with
  | some key => (key.text, norm (client.get key))
  | none => ([], [])

def addresses (entry : Entry) : List Str :=
  (if entry.ipAddress = [] then [] else [entry.ipAddress]) ++ entry.ipAddresses

/-- A row of `every_reservation`; a global one has no home. -/
structure Held where
  home : Option (Str × Int)
  subnet : Str
  key : Str
  identity : Str
  addresses : List Str
  prefixes : List Str
  hostname : Str
deriving DecidableEq

def held (family : Family) (home : Option (Str × Int)) (subnet : Str) (entry : Entry) : Held :=
  ⟨home, subnet, (identity family entry.client).1, (identity family entry.client).2,
    addresses entry, entry.prefixes, entry.hostname⟩

def everyReservation (family : Family) (config : Config) : List Held :=
  config.subnets.flatMap (fun subnet =>
    subnet.reservations.map (held family (some (subnet.net, subnet.id)) subnet.subnet)) ++
  config.reservations.map (held family none [])

structure Values where
  op : Str
  family : Str
  subnet : Str
  key : Str
  identity : Str
  address : Str
  hostname : Str
  was : Str
  place : Str

/-- The texts before and after a separator's first place: `str.partition`. -/
def partition (separator : Char) (text : Str) : Str × Str :=
  (text.takeWhile (· ≠ separator), (text.dropWhile (· ≠ separator)).tail)

def ask (values : Values) : Values :=
  let place := strip values.place
  let address := strip values.address
  let split := place ≠ [] ∧ ':' ∈ place
  { op := strip values.op
    family := if split then strip (partition ':' place).1 else strip values.family
    subnet := if split then strip (partition ':' place).2 else strip values.subnet
    key := strip values.key
    identity := norm (strip values.identity)
    address := if ':' ∈ address then lower address else address
    hostname := strip values.hostname
    was := strip values.was
    place := place }

/-- `_entry`; the keys an edit keeps are those the form does not show. -/
def entryOf (family : Family) (key : Ident) (identity address hostname : Str)
    (keep : Option Entry) : Entry where
  client := Client.named key identity
  ipAddress := match family with
    | .ipv4 => address
    | .ipv6 => []
  ipAddresses := match family with
    | .ipv4 => []
    | .ipv6 => [address]
  prefixes := (keep.map Entry.prefixes).getD []
  hostname := hostname
  rest := (keep.map Entry.rest).getD []

/-- `_HEX`. -/
def isHex (text : Str) : Bool :=
  let bytes := splitAt ':' text
  2 ≤ bytes.length ∧ ∀ byte ∈ bytes, byte.length = 2 ∧ ∀ c ∈ byte, c.isDigit ∨ ('a' ≤ c ∧ c ≤ 'f')

/-- `^[A-Za-z0-9]([A-Za-z0-9.-]{0,62})$`. -/
def isHostname : Str → Bool
  | [] => false
  | first :: rest => first.isAlphanum && decide (rest.length ≤ 62) &&
      rest.all (fun c => c.isAlphanum || c == '.' || c == '-')

/-- What a plan finds around Kea's configuration and the subnet's file. -/
structure Around where
  configured : Bool
  databases : List Str
  /-- The subnet's file is ZTP's own. -/
  ztpFile : Bool
  /-- The subnet is declared relayed for ZTP. -/
  relayed : Bool
  mainReadable : Bool
  /-- Kea's configuration takes the subnet's reservations from Mercury's file. -/
  takes : Bool
  leases : Option (List Lease)

/-- Why a plan is refused. -/
inductive Refusal where
  | op
  | family
  | subnet
  | notConfigured
  | config
  | subnets (found : Nat)
  | databases
  | ztp
  | relayed
  | main
  | takes
  | file
  | leases
  | was (hits : Nat)
  | key
  | identity
  | address
  | version
  | hostname
  | outside
  | taken (by_ : Held)
  | leased
  | same

structure Plan where
  op : Op
  family : Family
  subnetId : Int
  prefix_ : Str
  before : Option Entry
  after : Option Entry

variable [Readers]

/-- `address in network`. -/
def Network.contains (network : Network) (address : Address) : Bool :=
  address.isV6 = network.networkAddress.isV6 ∧
    address.number &&& network.netmask = network.networkAddress.number

/-- `_in`. -/
def within (address subnet : Str) : Bool :=
  match Readers.ipAddress address, Readers.ipNetwork subnet with
  | some address, some network => Network.contains network address
  | _, _ => false

def beforeOf (family : Family) (op : Op) (was : Str) (mine : List Entry) :
    Except Refusal (Option Entry) :=
  let named := ((partition '=' was).1, norm (partition '=' was).2)
  match op with
  | .add => .ok none
  | .edit | .remove =>
    match mine.filter (fun entry => identity family entry.client = named) with
    | [entry] => .ok (some entry)
    | hits => .error (.was hits.length)

def leasedAway (family : Family) (before : Option Entry) (key : Ident) (identity_ address : Str)
    (subnetId : Int) (leases : List Lease) : Bool :=
  match leases.find? (fun lease => lease.ipAddress = address ∧ lease.subnetId = subnetId) with
  | none => false
  | some holder =>
    let other := norm (holder.client.get key) ≠ identity_
    match before with
    | none => other
    | some before =>
      let old := identity family before.client
      if norm (holder.client.getText old.1) = old.2 ∧ other then false else other

/-- `identity(before or {}, family)`. -/
def identityOf (family : Family) (before : Option Entry) : Str × Str :=
  (before.map (fun entry => identity family entry.client)).getD ([], [])

/-- The reservations of the subnet that name the asked client or address. -/
def others (family : Family) (config : Config) (subnetId : Int) (before : Option Entry)
    (key : Ident) (identity_ address : Str) : List Held :=
  (everyReservation family config).filter (fun row =>
    row.home.map Prod.snd = some subnetId ∧ (row.key, row.identity) ≠ identityOf family before ∧
      ((row.key, row.identity) = (key.text, identity_) ∨ address ∈ row.addresses))

def hostnameOf (before : Option Entry) (s : Values) : Str :=
  if s.hostname ≠ [] then s.hostname else (before.map Entry.hostname).getD []

def unchanged (family : Family) (before : Option Entry) (key : Ident) (s : Values) : Bool :=
  before.any (fun before => identity family before.client = (key.text, s.identity) ∧
    addresses before = [s.address] ∧ before.hostname = hostnameOf (some before) s)

def afterOf (family : Family) (config : Config) (leases : List Lease) (subnet : Subnet)
    (before : Option Entry) (op : Op) (s : Values) : Except Refusal Entry :=
  let able := (offered family).filter (fun key =>
    config.identifiers = [] ∨ key.text ∈ config.identifiers)
  match able.find? (fun key => key.text = s.key) with
  | none => .error .key
  | some key =>
    if !isHex s.identity ∨ (key = .hwAddress ∧ s.identity.length ≠ 17) then .error .identity
    else match Readers.ipAddress s.address with
    | none => .error .address
    | some address =>
      if address.isV6 ≠ decide (family = .ipv6) then .error .version
      else if s.hostname ≠ [] ∧ !isHostname s.hostname then .error .hostname
      else if !within s.address subnet.subnet then .error .outside
      else match others family config subnet.id before key s.identity s.address with
      | row :: _ => .error (.taken row)
      | [] =>
        if leasedAway family before key s.identity s.address subnet.id leases then
          .error .leased
        else if op = .edit ∧ unchanged family before key s then .error .same
        else .ok (entryOf family key s.identity s.address (hostnameOf before s) before)

/-- `_plan`, of Kea's configuration and Mercury's files by subnet, where they can
be read. -/
def plan (config : Option Config) (files : Int → Option (List Entry)) (around : Around)
    (s : Values) : Except Refusal Plan :=
  match Op.ofText s.op with
  | none => .error .op
  | some op =>
    match Family.ofText s.family with
    | none => .error .family
    | some family =>
      match Readers.int 10 s.subnet with
      | none => .error .subnet
      | some subnetId =>
        if !around.configured then .error .notConfigured
        else match config with
        | none => .error .config
        | some config =>
          match config.subnets.filter (fun subnet => subnet.id = subnetId) with
          | [subnet] =>
            if around.databases ≠ [] then .error .databases
            else if family = .ipv4 ∧ around.ztpFile then .error .ztp
            else if family = .ipv4 ∧ around.relayed then .error .relayed
            else if !around.mainReadable then .error .main
            else if !around.takes then .error .takes
            else match files subnetId, around.leases with
            | none, _ => .error .file
            | some _, none => .error .leases
            | some mine, some leases =>
              match beforeOf family op s.was mine with
              | .error refusal => .error refusal
              | .ok before =>
                match op with
                | .remove => .ok ⟨op, family, subnetId, subnet.subnet, before, none⟩
                | .add | .edit =>
                  match afterOf family config leases subnet before op s with
                  | .error refusal => .error refusal
                  | .ok after => .ok ⟨op, family, subnetId, subnet.subnet, before, some after⟩
          | found => .error (.subnets found.length)

/-- The list `apply` writes in place of the subnet's. -/
def candidate (plan : Plan) (mine : List Entry) : List Entry :=
  mine.filter (fun entry => plan.before.all (fun before =>
    identity plan.family entry.client ≠ identity plan.family before.client)) ++ plan.after.toList

end Nmas.Dhcp
