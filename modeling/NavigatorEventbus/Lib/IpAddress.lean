import NavigatorEventbus.Lib.Json

/-!
# IP addresses and networks

Addresses and networks of both versions as Python's `ipaddress` reads them, and when a network contains an
address.
-/

namespace IpAddress

/-- An address: its version and its number. -/
inductive Address where
  | v4 (n : ℕ)
  | v6 (n : ℕ)
  deriving DecidableEq

/-- The number that decimal digits write. -/
def decimal (s : List Char) : Option ℕ :=
  if s ≠ [] ∧ s.all Char.isDigit then some (s.foldl (fun n c => n * 10 + (c.toNat - '0'.toNat)) 0) else none

/-- An octet of a dotted address: no leading zero, at most 255. -/
def octet (s : List Char) : Option ℕ := do
  let n ← decimal s
  if s.length ≤ 3 ∧ (s = ['0'] ∨ s.head? ≠ some '0') ∧ n ≤ 255 then some n else none

/-- A dotted address. -/
def parseV4 (s : List Char) : Option ℕ := do
  let octets ← (s.splitOn '.').mapM octet
  if octets.length = 4 then some (octets.foldl (fun n o => n * 256 + o) 0) else none

/-- A group of up to four hexadecimal digits. -/
def hextet (s : List Char) : Option ℕ := do
  let digits ← s.mapM Json.hexValue
  if s ≠ [] ∧ s.length ≤ 4 then some (digits.foldl (fun n d => n * 16 + d) 0) else none

/-- A dotted address at the end counts for two groups. -/
def groups (parts : List (List Char)) : Option (List (Option ℕ)) :=
  match parts.reverse with
  | [] => some []
  | last :: before =>
    if '.' ∈ last then do
      let n ← parseV4 last
      return before.reverse.map hextet ++ [some (n / 0x10000), some (n % 0x10000)]
    else some (parts.map hextet)

/-- The number of eight groups. -/
def ofGroups (gs : List ℕ) : ℕ := gs.foldl (fun n g => n * 0x10000 + g) 0

/-- An address in groups, one run of which may be left out as `::`. -/
def parseGroups (s : List Char) : Option ℕ := do
  let parts := s.splitOn ':'
  let gs ← groups parts
  if parts.length < 3 ∨ 9 < gs.length then none
  else
    -- The empty parts strictly inside; an empty first or last part belongs to a `::` there.
    let inner := (List.range gs.length).filter fun i =>
      0 < i ∧ i + 1 < gs.length ∧ parts[i]? = some []
    match inner with
    | [] => do
      let gs ← gs.mapM id
      if gs.length = 8 then some (ofGroups gs) else none
    | [i] => do
      let high := gs.take i
      let low := gs.drop (i + 1)
      let high := if parts.head? = some [] then high.drop 1 else high
      let low := if parts.getLast? = some [] then low.dropLast else low
      let high ← high.mapM id
      let low ← low.mapM id
      if (parts.head? = some [] ∧ high ≠ []) ∨ (parts.getLast? = some [] ∧ low ≠ []) then none
      else if high.length + low.length < 8 then
        some (ofGroups (high ++ List.replicate (8 - (high.length + low.length)) 0 ++ low))
      else none
    | _ => none

/-- An address of version 6; its zone does not matter here. -/
def parseV6 (s : List Char) : Option ℕ :=
  let address := s.takeWhile (· ≠ '%')
  let zone := s.dropWhile (· ≠ '%')
  if zone = [] ∨ (zone.length ≠ 1 ∧ '%' ∉ zone.drop 1) then parseGroups address else none

/-- `ip_address`; `none` when that raises. -/
def parse (s : List Char) : Option Address :=
  if '/' ∈ s then none
  else
    match parseV4 s with
    | some n => some (.v4 n)
    | none => (parseV6 s).map .v6

/-- A network: an address, of which the first bits count. -/
structure Network where
  address : Address
  bits : ℕ
  deriving DecidableEq

/-- The address is in the network. -/
def Network.Contains (network : Network) : Address → Prop
  | .v4 n => ∃ a, network.address = .v4 a ∧ n / 2 ^ (32 - network.bits) = a / 2 ^ (32 - network.bits)
  | .v6 n => ∃ a, network.address = .v6 a ∧ n / 2 ^ (128 - network.bits) = a / 2 ^ (128 - network.bits)

/-- `address in network`. -/
def Network.contains (network : Network) (address : Address) : Bool :=
  match network.address, address with
  | .v4 a, .v4 n => n / 2 ^ (32 - network.bits) == a / 2 ^ (32 - network.bits)
  | .v6 a, .v6 n => n / 2 ^ (128 - network.bits) == a / 2 ^ (128 - network.bits)
  | _, _ => false

theorem Network.contains_iff {network : Network} {address : Address} :
    network.contains address = true ↔ network.Contains address := by
  obtain ⟨base, bits⟩ := network
  cases base <;> cases address <;> simp [contains, Contains]

/-- The number of leading ones of a mask of 32 bits. -/
def maskBits (mask : ℕ) : Option ℕ :=
  (List.range 33).find? fun bits => mask = 2 ^ 32 - 2 ^ (32 - bits)

/-- The prefix length of a network, or its netmask or hostmask. -/
def prefixV4 (s : List Char) : Option ℕ :=
  match decimal s with
  | some n => if n ≤ 32 then some n else none
  | none => do
    let mask ← parseV4 s
    match maskBits mask with
    | some bits => some bits
    | none => maskBits (2 ^ 32 - 1 - mask)

/-- `ip_network(s, strict=False)`; `none` when that raises. -/
def parseNetwork (s : List Char) : Option Network :=
  match s.splitOn '/' with
  | [address] => do
    match ← parse address with
    | .v4 n => return ⟨.v4 n, 32⟩
    | .v6 n => return ⟨.v6 n, 128⟩
  | [address, mask] => do
    match ← parse address with
    | .v4 n => return ⟨.v4 n, ← prefixV4 mask⟩
    | .v6 n =>
      let bits ← decimal mask
      if bits ≤ 128 then some ⟨.v6 n, bits⟩ else none
  | _ => none

end IpAddress
