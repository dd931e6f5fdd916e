import PromptGateway.Frontend
import PromptGateway.Startup
import Std.Async.TCP

/-
  The gateway as a program.

  The program reads its settings, connects to the workers and listens for clients.
  From then on it goes round: what arrived on the sockets is put into the links,
  the gateway takes its turn, and what it wrote into the links goes out on the
  sockets. All decisions are made by the gateway; here bytes are carried and the
  time is read.
-/

open Std.Async Std.Async.TCP
open Std.Net (IPv4Addr SocketAddress)

namespace PromptGateway.Program

/-! ## Sockets -/

/-- A socket with the read and the write that are under way on it. -/
structure Wire where
  socket : Socket.Client
  reading : Option (AsyncTask (Option ByteArray))
  writing : Option (AsyncTask Unit) := none
  /-- Whether this end has been closed. -/
  shut : Bool := false

/-- The result of a task that has ended. -/
def ended? (t : AsyncTask α) : IO (Option (Except IO.Error α)) := do
  if ← IO.hasFinished t then return some (Task.get t) else return none

/-- The result of a task, awaited for so many milliseconds. -/
def endedWithin (t : AsyncTask α) : Nat → IO (Option (Except IO.Error α))
  | 0 => ended? t
  | ms + 1 => do
    match ← ended? t with
    | some r => return some r
    | none =>
      IO.sleep 1
      endedWithin t ms

/-- Begins to read from a socket. -/
def startRead (s : Socket.Client) : IO (AsyncTask (Option ByteArray)) :=
  EAsync.asTask (s.recv? (UInt64.ofNat Link.readChunk))

/-- A wire over a socket that is connected. -/
def Wire.ofSocket (s : Socket.Client) : IO Wire := do
  return { socket := s, reading := some (← startRead s) }

/-- Carries what has arrived on a socket into a link. -/
def Wire.carryIn (w : Wire) (l : Link) : IO (Wire × Link) := do
  let some t := w.reading | return (w, l)
  match ← ended? t with
  | none => return (w, l)
  | some (.ok (some b)) =>
    return ({ w with reading := some (← startRead w.socket) }, l.arrive b.toList)
  | some (.ok none) => return ({ w with reading := none }, l.closeFar)
  | some (.error _) => return ({ w with reading := none }, l.resetFar)

/-- Carries what was written into a link out on a socket, one write after the
other. -/
def Wire.carryOut (w : Wire) (l : Link) : IO (Wire × Link) := do
  match ← w.writing.bindM ended? with
  | some (.error _) => return ({ w with writing := none }, l.resetFar)
  | finished =>
    if w.writing.isSome && finished.isNone then return (w, l)
    else
      let (bytes, shut, l) := l.take
      if bytes.isEmpty then
        if shut && !w.shut then discard <| EAsync.asTask w.socket.shutdown
        return ({ w with writing := none, shut := shut }, l)
      else
        let t ← EAsync.asTask (w.socket.send ⟨bytes.toArray⟩)
        return ({ w with writing := some t }, l)

/-- The address of an endpoint. -/
def socketAddress (e : Endpoint) : SocketAddress :=
  let port := UInt16.ofNat e.port
  match e.host with
  | .v4 n => .v4 ⟨⟨Vector.ofFn fun i => UInt8.ofNat (n / Nat.pow 256 (3 - i.val))⟩, port⟩
  | .v6 groups _ => .v6 ⟨⟨Vector.ofFn fun i => UInt16.ofNat (groups.getD i.val 0)⟩, port⟩

/-! ## Starting -/

/-- Why a file could not be read. -/
def fileError : IO.Error → FileError
  | .noFileOrDirectory .. => .notFound
  | .inappropriateType _ 20 _ => .notDirectory
  | .inappropriateType _ 21 _ => .isDirectory
  | e => .system (toString e)

/-- The content of a file. -/
def readFile (path : String) : IO (Except FileError Bytes) := do
  if path.toList.contains '\x00' then return .error .nulInName
  else
    try
      let bytes ← IO.FS.readBinFile path
      return .ok bytes.toList
    catch e => return .error (fileError e)

/-- The settings of the program. -/
def readSettings (arguments : List String) : IO (Except SettingsError Settings) := do
  match Settings.chosenPath arguments.head? (← IO.getEnv Settings.environmentKey) with
  | none => return .ok {}
  | some path => return Settings.ofFile path (← readFile path)

/-- Why a port could not be opened. -/
def listenFailure : IO.Error → NetworkError
  | .resourceBusy .. => .inUse
  | _ => .notAvailable

/-- Opens the listener for clients. -/
def openListener (address : String) : IO (Except NetworkError Socket.Server) := do
  match Endpoint.resolve address with
  | .error e => return .error (.address e)
  | .ok e =>
    try
      let server ← Socket.Server.mk
      server.bind (socketAddress e)
      server.listen 1024
      return .ok server
    catch e => return .error (listenFailure e)

/-- The time of day. -/
def now : IO Millis := do
  return .ofInt (← Std.Time.Timestamp.now).toMillisecondsSinceUnixEpoch.val

/-- Connects to an address, if somebody answers in time. -/
def dial (address : String) (timeoutMs : Nat) : IO (Option Socket.Client) := do
  match Endpoint.resolve address with
  | .error _ => return none
  | .ok e =>
    let socket ← Socket.Client.mk
    let t ← EAsync.asTask (socket.connect (socketAddress e))
    match ← endedWithin t timeoutMs with
    | some (.ok ()) => return some socket
    | _ => return none

/-- Connects to every configured worker that answers. -/
def dialWorkers (g : Gateway) : IO (Gateway × List Wire) := do
  let s := g.settings.workers
  s.addresses.foldlM
    (fun (g, wires) address => do
      match ← dial address s.connectTimeoutMs with
      | none => return (g, wires)
      | some socket =>
        match g.dispatcher.pool.addWorker ⟨true, [address]⟩ (← now) address with
        | .error _ => return (g, wires)
        | .ok (_, pool) => return (g.withPool pool, wires ++ [← Wire.ofSocket socket]))
    (g, [])

/-! ## Running -/

/-- A running gateway with its sockets. The wires of workers are in the order of
the links of the pool. -/
structure Running where
  front : Frontend
  clients : List (ConnectionId × Wire) := []
  workers : List Wire

/-- Does something with the wire and the link of every client, and lets go of the
wires of clients that are gone. -/
def Running.eachClient (r : Running) (step : Wire → Link → IO (Wire × Link)) : IO Running := do
  let (front, clients) ← r.clients.foldlM
    (fun ((f, kept) : Frontend × List (ConnectionId × Wire)) (id, w) => do
      match f.clients.find? id with
      | none =>
        discard <| EAsync.asTask w.socket.shutdown
        return (f, kept)
      | some c =>
        let (w, l) ← step w c.link
        return (f.update id { c with link := l } f.gateway.dispatcher, kept ++ [(id, w)]))
    (r.front, [])
  return { r with front := front, clients := clients }

/-- Does something with the wire and the link of every worker. -/
def Running.eachWorker (r : Running) (step : Wire → Link → IO (Wire × Link)) : IO Running := do
  let (front, workers) ← r.workers.zipIdx.foldlM
    (fun ((f, kept) : Frontend × List Wire) (w, i) => do
      let pool := f.gateway.dispatcher.pool
      match pool.links[i]? with
      | none => return (f, kept ++ [w])
      | some l =>
        let (w, l) ← step w l
        let pool := pool.modifyLink i fun _ => l
        return ({ f with gateway := f.gateway.withPool pool }, kept ++ [w]))
    (r.front, [])
  return { r with front := front, workers := workers }

/-- Takes in everybody who has connected. -/
partial def Running.acceptAll (r : Running) (server : Socket.Server) : IO Running := do
  let some socket ← (try server.tryAccept catch _ => pure none) | return r
  match r.front.accept .fresh with
  | (none, front) =>
    discard <| EAsync.asTask socket.shutdown
    ({ r with front := front } : Running).acceptAll server
  | (some id, front) =>
    let wire ← Wire.ofSocket socket
    ({ r with front := front, clients := r.clients ++ [(id, wire)] } : Running).acceptAll server

/-- One round, and whether there was anything to do. -/
def Running.round (r : Running) (server : Socket.Server) : IO (Bool × Running) := do
  let r ← r.acceptAll server
  let r ← r.eachClient Wire.carryIn
  let r ← r.eachWorker Wire.carryIn
  let time ← now
  let random ← IO.rand 0 (UInt64.size - 1)
  let moment : Moment := ⟨time, fun n => generatedId time (.ofNat (random + n))⟩
  let front := r.front.receive moment
  let (assigned, gateway) := front.gateway.assignmentTick time
  let (delivered, gateway) := gateway.deliveryTick time
  let front := { front with gateway := gateway }.sweep time
  let r ← ({ r with front := front } : Running).eachClient Wire.carryOut
  let r ← r.eachWorker Wire.carryOut
  return (assigned || delivered, r)

/-- Goes round until the gateway is asked to stop. -/
partial def Running.run (r : Running) (server : Socket.Server) : IO Unit := do
  if r.front.gateway.stopping then return ()
  let (busy, r) ← r.round server
  if !busy then
    IO.sleep (UInt32.ofNat (max 1 r.front.gateway.settings.dispatch.idleBackoffMs))
  r.run server

/-- Reports a start that failed. -/
def fail (r : Report) : IO UInt32 := do
  IO.eprint r.render
  return 1

end PromptGateway.Program

open PromptGateway PromptGateway.Program in
/-- Runs a gateway with the settings that the arguments or the environment name. -/
def main (arguments : List String) : IO UInt32 := do
  match ← readSettings arguments with
  | .error e => fail e.report
  | .ok s =>
    let (g, workers) ← dialWorkers (Gateway.create s)
    match s.listening (← openListener s.listenAddress) with
    | .error e => fail e.report
    | .ok server =>
      let r : Running := { front := Frontend.create g 2, workers := workers }
      r.run server
      return 0
