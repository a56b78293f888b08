import MutationInput.CommandLine.Help
import MutationInput.CommandLine.Run
import MutationInput.Exchange
import Std.Async.DNS
import Std.Async.TCP

/-!
# The program

Reads the files that a command names, makes the exchanges that it asks for, and prints its outcome.
What the command does is decided elsewhere (`CommandLine.run`).
-/
namespace MutationInput.Terminal

open Std.Async

/-- What a path leads to. -/
def entryAt (path : String) : IO FileEntry := do
  let place := (← IO.currentDir) / path
  match ← place.metadata.toBaseIO with
  | .error _ => return .notFile
  | .ok found =>
    if found.type != .file then return .notFile
    match ← (IO.FS.readBinFile place).toBaseIO with
    | .ok bytes => return .content bytes.toList
    | .error e => return .unreadable (toString e)

/-- The socket address of a host. -/
def socketAddress (host : Http.Host) (port : UInt16) : IO Std.Net.SocketAddress := do
  let bytes (n : Nat) : UInt8 := UInt8.ofNat (n % 256)
  match host with
  | .v4 address =>
    let n := address.toNat
    let ip := .ofParts (bytes (n / 0x1000000)) (bytes (n / 0x10000)) (bytes (n / 0x100)) (bytes n)
    return .v4 ⟨ip, port⟩
  | .v6 groups => return .v6 ⟨⟨groups⟩, port⟩
  | .domain name =>
    match (← (DNS.getAddrInfo name "http").block).toList with
    | .v4 ip :: _ => return .v4 ⟨ip, port⟩
    | .v6 ip :: _ => return .v6 ⟨ip, port⟩
    | [] => throw (IO.userError "no address")

/-- What comes over a connection until that is a whole reply or the connection is closed. -/
def receiveReply (connection : TCP.Socket.Client) : IO Reply := do
  let mut received := ByteArray.empty
  repeat
    match ← (connection.recv? 65536).block.toBaseIO with
    | .ok (some bytes) =>
      received := received ++ bytes
      if Reply.isSettled received.toList then break
    | _ => break
  return Reply.ofBytes "connection closed before message completed" received.toList

/-- Connects to an endpoint. There are no secure connections. -/
def connect (e : Http.Endpoint) : IO TCP.Socket.Client := do
  if e.scheme = .https then throw (IO.userError "no secure connections")
  let connection ← TCP.Socket.Client.mk
  (connection.connect (← socketAddress e.host (UInt16.ofNat e.port))).block
  return connection

/-- Sends a request and waits for what comes back. No response that points to another place is
followed. -/
def exchange (r : Request) : IO Reply := do
  match ← (connect r.endpoint).toBaseIO with
  | .error e => return .unreachable (toString e)
  | .ok connection =>
    match ← (connection.send ⟨r.bytes.toArray⟩).block.toBaseIO with
    | .error e => return .hungUp (toString e)
    | .ok () => receiveReply connection

/-- Makes the exchanges that an interaction asks for. -/
def perform {α : Type} : Interaction α → IO α
  | .done x => return x
  | .ask request next => do
    let reply ← exchange request
    perform (next reply)

/-- Prints an event on the error output. -/
def printEvent (e : Event) : IO Unit :=
  IO.eprintln (e.level.word ++ " " ++ e.visibleText)

/-- Runs a command and gives its exit code. -/
def run (verbose : Bool) (c : CommandLine.Command) : IO UInt32 := do
  let entries ← c.paths.mapM fun path => return (path, ← entryAt path)
  let files : FileSystem := fun path => (entries.lookup path).getD .notFile
  let (events, outcome) ←
    perform (CommandLine.run .basic verbose (← IO.getEnv "LOG_LEVEL") files c)
  events.forM printEvent
  IO.print outcome.stdout
  IO.eprint outcome.stderr
  return outcome.exitCode.toUInt32

end MutationInput.Terminal

open MutationInput in
/-- Does what the command line asks for. -/
def main (args : List String) : IO UInt32 := do
  match CommandLine.Invocation.ofArguments args with
  | .help =>
    IO.print CommandLine.helpText
    return 0
  | .version =>
    IO.print CommandLine.versionText
    return 0
  | .usage =>
    IO.eprint CommandLine.usageText
    return 2
  | .run verbose command => Terminal.run verbose command
