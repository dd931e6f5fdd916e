import PromptGateway.Network.Name
import PromptGateway.Text.Hex

/-
  Hosts, as addresses of the internet protocol.

  A host is written as an address of version 4, in one to four parts, or of version
  6, in groups between colons, or as a name. An address of version 6 may have a zone
  behind a percent sign, the interface through which it is reached. The one name that
  is known without asking is that of this host itself.
-/

namespace PromptGateway

/-- An address of a host. -/
inductive Host where
  | v4 (address : Nat)
  /-- The eight groups of 16 bits, and the number of the zone, 0 for none. -/
  | v6 (groups : List Nat) (zone : Nat)
  deriving DecidableEq, Repr

/-- Why there is no host behind a text. -/
inductive HostError where
  | nulInName
  /-- The text is no name that anybody could be asked about. -/
  | unknownName
  /-- Nobody could be asked about the name. -/
  | lookupFailed
  deriving DecidableEq, Repr

/-- The wording of a host that was not found. -/
def HostError.message : HostError → String
  | nulInName => "file name contained an unexpected NUL byte"
  | unknownName => "failed to lookup address information: Name or service not known"
  | lookupFailed =>
    "failed to lookup address information: Temporary failure in name resolution"

namespace Host

/-! ## Addresses -/

/-- The number that digits of a base spell. -/
def digits? (base : Nat) (cs : List Char) : Option Nat :=
  if cs.isEmpty then none
  else cs.foldlM
    (fun n c =>
      match Text.hexValue c with
      | some d => if d < base then some (base * n + d) else none
      | none => none)
    0

/-- A part of an address of version 4: in base eight after a zero, in base sixteen
after a zero and an x. -/
def part? : List Char → Option Nat
  | '0' :: 'x' :: cs => digits? 16 cs
  | '0' :: 'X' :: cs => digits? 16 cs
  | '0' :: cs => digits? 8 ('0' :: cs)
  | cs => digits? 10 cs

/-- An address of version 4: bytes between points, of which the last part takes all
that is left. -/
def v4? (cs : List Char) : Option Nat := do
  let parts ← (Text.split '.' cs).mapM part?
  let last ← parts.getLast?
  let front := parts.dropLast
  if 3 < front.length ∨ front.any (255 < ·) then none
  else
    let left := Nat.pow 256 (4 - front.length)
    if last < left then some (front.foldl (fun n b => 256 * n + b) 0 * left + last) else none

/-- A byte in base ten, without a zero before other digits. -/
def byte? (cs : List Char) : Option Nat :=
  if cs.head? = some '0' ∧ 1 < cs.length then none else (digits? 10 cs).filter (· < 256)

/-- Four bytes between points, as two groups of 16 bits. -/
def quad? (cs : List Char) : Option (List Nat) := do
  match ← (Text.split '.' cs).mapM byte? with
  | [a, b, c, d] => some [256 * a + b, 256 * c + d]
  | _ => none

/-- Groups of up to four digits, the last of which may be an address of version 4. -/
def groups? : List (List Char) → Option (List Nat)
  | [] => some []
  | [cs] => if cs.contains '.' then quad? cs else (group? cs).map ([·])
  | cs :: rest => do return (← group? cs) :: (← groups? rest)
where
  /-- One group. -/
  group? (cs : List Char) : Option Nat := if 4 < cs.length then none else digits? 16 cs

/-- The text before and after the first double colon. -/
def gap? : List Char → Option (List Char × List Char)
  | ':' :: ':' :: cs => some ([], cs)
  | c :: cs => (gap? cs).map fun (a, b) => (c :: a, b)
  | [] => none

/-- The groups of a text that may be empty. -/
def side? (cs : List Char) : Option (List Nat) :=
  if cs.isEmpty then some [] else groups? (Text.split ':' cs)

/-- An address of version 6. One double colon may stand for groups of zero. -/
def v6? (cs : List Char) : Option (List Nat) :=
  match gap? cs with
  | none => (groups? (Text.split ':' cs)).filter (·.length == 8)
  | some (front, back) => do
    if front.contains '.' then none
    else
      let a ← side? front
      let b ← side? back
      let n := a.length + b.length
      if n < 8 then some (a ++ List.replicate (8 - n) 0 ++ b) else none

/-! ## Kinds of addresses of version 6 -/

/-- The address that stands for every address of this host. -/
def isWildcard (groups : List Nat) : Bool := groups.all (· == 0)

/-- Whether an address stands for one of version 4. -/
def isMapped (groups : List Nat) : Bool := groups.take 6 == [0, 0, 0, 0, 0, 65535]

/-- Whether an address belongs to a group of hosts. -/
def isMulticast (groups : List Nat) : Bool := 0xFF00 ≤ groups.headD 0

/-- Whether an address means something on one link only. -/
def isLinkLocal (groups : List Nat) : Bool :=
  0xFE80 ≤ groups.headD 0 && groups.headD 0 ≤ 0xFEBF

/-- Whether the zone of an address may be given by the name of an interface: the
address stays on a link, or belongs to a group that does not leave a host or a link. -/
def hasNamedZone (groups : List Nat) : Bool :=
  isLinkLocal groups ||
    isMulticast groups && (groups.headD 0 % 16 == 1 || groups.headD 0 % 16 == 2)

/-! ## Zones -/

/-- The interfaces, with their numbers: the loopback one. -/
def interfaces : List (String × Nat) := [("lo", 1)]

/-- A zone by its number, of 32 bits. -/
def zoneNumber? (cs : List Char) : Option Nat := (digits? 10 cs).filter (· < UInt32.size)

/-- A zone of an address, by the name of an interface where that is possible, or by
its number. -/
def zone? (groups : List Nat) (cs : List Char) : Option Nat :=
  let named := if hasNamedZone groups then interfaces.lookup (String.ofList cs) else none
  named.or (zoneNumber? cs)

/-- An address of version 6, with a zone or without. -/
def zoned? (zone? : List Nat → List Char → Option Nat) (cs : List Char) : Option Host := do
  let groups ← v6? (cs.takeWhile (· ≠ '%'))
  match cs.dropWhile (· ≠ '%') with
  | [] => some (.v6 groups 0)
  | _ :: zone => return .v6 groups (← zone? groups zone)

/-! ## Names -/

/-- The host that a text names. -/
def resolve (host : String) : Except HostError Host :=
  let cs := host.toList
  if cs.contains '\x00' then .error .nulInName
  else match v4? cs, zoned? zone? cs with
    | some n, _ => .ok (.v4 n)
    | none, some h => .ok h
    | none, none =>
      if host.toLower = "localhost" then .ok (.v4 (127 * Nat.pow 256 3 + 1))
      else if cs.isEmpty || !HostName.isAskable cs then .error .unknownName
      else .error .lookupFailed

end Host

end PromptGateway
