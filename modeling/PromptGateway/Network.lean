import PromptGateway.Network.Host

/-
  Addresses, and what connecting to them or listening on them comes to.

  An address is a host and a port with a colon between them. Without brackets the host
  ends at the last colon, and brackets set off an address of version 6. `Network` is what
  there is to connect to: nothing at all while the host has no route, and else the
  addresses somebody listens on, every other one refusing the connection.
-/

namespace PromptGateway

/-- Why an address leads nowhere. -/
inductive AddressError where
  | noPort
  | invalidPort
  | host (error : HostError)
  deriving DecidableEq, Repr

/-- The wording of an address that leads nowhere. -/
def AddressError.message : AddressError → String
  | noPort => "invalid socket address"
  | invalidPort => "invalid port value"
  | host e => e.message

/-- Why a call to the network fails. -/
inductive NetworkError where
  | address (error : AddressError)
  | noDevice
  | invalidArgument
  | inUse
  | notAvailable
  | unreachable
  | refused
  deriving DecidableEq, Repr

/-- The wording of a failed call to the network. -/
def NetworkError.message : NetworkError → String
  | address e => e.message
  | noDevice => "No such device (os error 19)"
  | invalidArgument => "Invalid argument (os error 22)"
  | inUse => "Address already in use (os error 98)"
  | notAvailable => "Cannot assign requested address (os error 99)"
  | unreachable => "Network is unreachable (os error 101)"
  | refused => "Connection refused (os error 111)"

/-- A host and a port. -/
structure Endpoint where
  host : Host
  port : Nat
  deriving DecidableEq, Repr

namespace Endpoint

/-- A port in digits, of 16 bits. -/
def portNumber? (cs : List Char) : Option Nat := (Host.digits? 10 cs).filter (· < UInt16.size)

/-- A port in digits, with a plus sign or without. -/
def port? : List Char → Option Nat
  | '+' :: cs => portNumber? cs
  | cs => portNumber? cs

/-- An endpoint of version 6: an address in brackets, whose zone has a number if there
is one, and a port in digits. -/
def bracketed? : List Char → Option Endpoint
  | '[' :: cs =>
    match cs.dropWhile (· ≠ ']') with
    | ']' :: ':' :: port => do
      let host ← Host.zoned? (fun _ => Host.zoneNumber?) (cs.takeWhile (· ≠ ']'))
      return ⟨host, ← portNumber? port⟩
    | _ => none
  | _ => none

/-- The endpoint of a host and a port, which follows the last colon. -/
def named (address : String) : Except AddressError Endpoint :=
  let back := address.toList.reverse
  match back.dropWhile (· ≠ ':') with
  | [] => .error .noPort
  | _ :: host =>
    match port? (back.takeWhile (· ≠ ':')).reverse with
    | none => .error .invalidPort
    | some p =>
      match Host.resolve (String.ofList host.reverse) with
      | .error e => .error (.host e)
      | .ok h => .ok ⟨h, p⟩

/-- The endpoint that an address names. -/
def resolve (address : String) : Except AddressError Endpoint :=
  match bracketed? address.toList with
  | some e => .ok e
  | none => named address

end Endpoint

/-- What there is to connect to. -/
structure Network where
  /-- Whether there is a route to anywhere. -/
  routed : Bool
  /-- The addresses that somebody listens on. -/
  listening : List String
  deriving DecidableEq, Repr

namespace Network

/-- What connecting to an address comes to. An address that somebody listens on need
not be looked at. -/
def connect (n : Network) (address : String) : Except NetworkError Unit :=
  if n.listening.contains address then
    if n.routed then .ok () else .error .unreachable
  else
    match Endpoint.resolve address with
    | .error e => .error (.address e)
    | .ok ⟨.v4 _, _⟩ => .error (if n.routed then .refused else .unreachable)
    | .ok ⟨.v6 groups zone, _⟩ =>
      .error (if Host.isLinkLocal groups && zone == 0 then .invalidArgument
        else if n.routed then .refused
        else if Host.isMapped groups || Host.isMulticast groups then .unreachable
        else .notAvailable)

/-- Whether somebody listens on a port. Port zero stands for any free one. -/
def isTaken (n : Network) (port : Nat) : Bool :=
  port != 0 && n.listening.any fun a =>
    match Endpoint.resolve a with
    | .ok e => e.port == port
    | .error _ => false

/-- Why a host cannot listen on an address of its own. It can on every address of
version 4, and of version 6 on those that stand for one, or for all. -/
def listenFault? : Host → Option NetworkError
  | .v4 _ => none
  | .v6 groups zone =>
    if Host.isWildcard groups || Host.isMapped groups then none
    else if Host.isMulticast groups || (Host.isLinkLocal groups && zone == 0) then
      some .invalidArgument
    else if Host.isLinkLocal groups && !Host.interfaces.any (·.2 == zone) then some .noDevice
    else some .notAvailable

/-- What listening on an address comes to. -/
def listen (n : Network) (address : String) : Except NetworkError Unit :=
  match Endpoint.resolve address with
  | .error e => .error (.address e)
  | .ok ⟨host, port⟩ =>
    match listenFault? host with
    | some e => .error e
    | none => if n.isTaken port then .error .inUse else .ok ()

end Network

end PromptGateway
