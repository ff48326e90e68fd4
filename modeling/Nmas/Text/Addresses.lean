import Mathlib.Algebra.Group.Nat.Defs
import Nmas.Text.Unicode

/-!
Contract: what the `ipaddress` module and `int` read of a text.

Both are libraries of the interpreter and a parameter here: which texts they
accept differs between releases (leading zeros, scope ids), and nothing that
uses them depends on it. What they answer is spelled out: an address is its
version and number, a network its lowest address and prefix length.
-/

namespace Nmas.Text

/-- `max_prefixlen` of a version. -/
def maxPrefixlenOf (isV6 : Bool) : Nat := if isV6 then 128 else 32

/-- `ipaddress.ip_address`'s answer. -/
structure Address where
  isV6 : Bool
  number : Nat
  fits : number < 2 ^ maxPrefixlenOf isV6
deriving DecidableEq

namespace Address

def maxPrefixlen (address : Address) : Nat := maxPrefixlenOf address.isV6

/-- The mask of a prefix length. -/
def netmask (address : Address) (prefixlen : Nat) : Nat :=
  (2 ^ prefixlen - 1) <<< (address.maxPrefixlen - prefixlen)

def isUnspecified (address : Address) : Bool := address.number == 0

/-- `is_link_local`: 169.254.0.0/16 and fe80::/10. -/
def isLinkLocal (address : Address) : Bool :=
  if address.isV6 then address.number >>> 118 == 0x3fa else address.number >>> 16 == 0xa9fe

end Address

/-- `ipaddress.ip_network`'s answer: its lowest address has no bit of a host. -/
structure Network where
  networkAddress : Address
  prefixlen : Nat
  isLowest : networkAddress.number &&& networkAddress.netmask prefixlen = networkAddress.number
deriving DecidableEq

namespace Network

/-- `int(netmask)`. -/
def netmask (network : Network) : Nat := network.networkAddress.netmask network.prefixlen

/-- `num_addresses == 1`. -/
def isOneAddress (network : Network) : Bool :=
  network.prefixlen == network.networkAddress.maxPrefixlen

end Network

/-- The readers, none where they raise `ValueError`. -/
class Readers where
  /-- `int(text, base)`. -/
  int : (base : Nat) → Str → Option Int
  ipAddress : Str → Option Address
  /-- `ip_network(text, strict=False)`. -/
  ipNetwork : Str → Option Network
  /-- `.compressed`, of an address and of a network. -/
  compressed : Address → Str
  compressedNetwork : Network → Str

/-! ### Readers of the plain texts -/

def digitOf (base : Nat) (c : Char) : Option Nat :=
  let value := if c.isDigit then c.toNat - 48 else c.toLower.toNat - 87
  if (c.isDigit || ('a' ≤ c.toLower && c.toLower ≤ 'f')) && value < base then some value else none

def number (base : Nat) (text : Str) : Option Nat :=
  if text = [] then none
  else text.foldlM (fun value c => (digitOf base c).map (value * base + ·)) 0

def splitAt (separator : Char) (text : Str) : List Str :=
  text.foldr (fun c parts =>
    if c = separator then [] :: parts
    else match parts with
      | [] => [[c]]
      | part :: rest => (c :: part) :: rest) [[]]

/-- An IPv4 address in its four decimal parts. -/
def dottedQuad (text : Str) : Option Address :=
  match (splitAt '.' text).map (number 10) with
  | [some a, some b, some c, some d] =>
    if parts : a < 256 ∧ b < 256 ∧ c < 256 ∧ d < 256 then
      some ⟨false, ((a * 256 + b) * 256 + c) * 256 + d, by
        show _ < 2 ^ 32
        omega⟩
    else none
  | _ => none

def showQuad (address : Address) : Str :=
  ['.'].intercalate ([24, 16, 8, 0].map (fun shift =>
    Nat.toDigits 10 (address.number >>> shift % 256)))

def lowest (address : Address) (length : Nat) : Nat :=
  (address.number >>> (32 - length)) <<< (32 - length)

theorem lowest_le (address : Address) (length : Nat) : lowest address length ≤ address.number := by
  unfold lowest
  rw [Nat.shiftRight_eq_div_pow, Nat.shiftLeft_eq]
  exact Nat.div_mul_le_self _ _

def quadNetwork (address : Address) (length : Nat) (isV4 : address.isV6 = false)
    (isLength : length ≤ 32) : Network where
  networkAddress := ⟨false, lowest address length, by
    have fits := address.fits
    rw [isV4] at fits
    exact Nat.lt_of_le_of_lt (lowest_le address length) fits⟩
  prefixlen := length
  isLowest := by
    have fits := address.fits
    rw [isV4] at fits
    have bound : address.number >>> (32 - length) < 2 ^ length := by
      rw [Nat.shiftRight_eq_div_pow, Nat.div_lt_iff_lt_mul (Nat.two_pow_pos _), ← Nat.pow_add]
      have isWidth : length + (32 - length) = 32 := by omega
      rw [isWidth]
      exact fits
    show lowest address length &&& (2 ^ length - 1) <<< (32 - length) = lowest address length
    unfold lowest
    rw [← Nat.shiftLeft_and_distrib, Nat.and_two_pow_sub_one_eq_mod, Nat.mod_eq_of_lt bound]

/-- The readers on plain digits and dotted quads, where every release agrees;
other texts they refuse. -/
@[reducible] def plainReaders : Readers where
  int base text := (number (if base = 0 then 10 else base) text).map Int.ofNat
  ipAddress := dottedQuad
  ipNetwork text :=
    match splitAt '/' text with
    | [written] => network written 32
    | [written, mask] => (number 10 mask).bind (network written)
    | _ => none
  compressed := showQuad
  compressedNetwork network :=
    showQuad network.networkAddress ++ '/' :: Nat.toDigits 10 network.prefixlen
where
  network (written : Str) (length : Nat) : Option Network :=
    (dottedQuad written).bind (fun address =>
      if both : address.isV6 = false ∧ length ≤ 32 then
        some (quadNetwork address length both.1 both.2)
      else none)

def hextet (text : Str) : Option Nat := if text.length ≤ 4 then number 16 text else none

/-- The groups on one side of `::`, which may be none. -/
def hextets : List Str → Option (List Nat)
  | [[]] => some []
  | groups => groups.mapM hextet

/-- An IPv6 address in its groups of digits, at most one run of zeros skipped. -/
def colonHex (text : Str) : Option Address :=
  let groups := splitAt ':' text
  let inner := (groups.drop 1).dropLast
  let eight : Option (List Nat) :=
    match inner.idxOf? [] with
    | none => (groups.mapM hextet).filter (fun (all : List Nat) => all.length = 8)
    | some skipped =>
      match hextets (groups.take (skipped + 1)), hextets (groups.drop (skipped + 2)) with
      | some high, some low =>
        if high.length + low.length ≤ 7 then
          some (high ++ List.replicate (8 - high.length - low.length) 0 ++ low)
        else none
      | _, _ => none
  eight.bind (fun all =>
    let value := all.foldl (fun value group => value * 65536 + group) 0
    if fits : value < 2 ^ 128 then some ⟨true, value, fits⟩ else none)

/-- An address and a prefix length, the bits of the host cleared. -/
def networkOf (address : Address) (length : Nat) : Option Network :=
  let shift := address.maxPrefixlen - length
  let number := (address.number >>> shift) <<< shift
  if fits : number < 2 ^ maxPrefixlenOf address.isV6 then
    let lowest : Address := ⟨address.isV6, number, fits⟩
    if isLowest : number &&& lowest.netmask length = number ∧ length ≤ address.maxPrefixlen then
      some ⟨lowest, length, isLowest.1⟩
    else none
  else none

/-- The readers on plain digits, dotted quads and groups of hexadecimal digits. -/
@[reducible] def colonReaders : Readers where
  int := plainReaders.int
  ipAddress text := (dottedQuad text).orElse (fun _ => colonHex text)
  ipNetwork text :=
    match splitAt '/' text with
    | [written, mask] => do
      let address ← (dottedQuad written).orElse (fun _ => colonHex written)
      networkOf address (← number 10 mask)
    | _ => none
  compressed := plainReaders.compressed
  compressedNetwork := plainReaders.compressedNetwork

end Nmas.Text
