import Bulletin.Name.Uri
import Bulletin.Pair
import Bulletin.Text.Lossy
import Bulletin.Text.Quoted

/-!
# The demo

Two sessions in one process that exchange publications turn by turn. The local one publishes numbered
payloads below one prefix and subscribes to another; its peer does the reverse.

This file has everything but the waiting and the printing: what a command line means (`Demo.parse`),
and the lines of the log that the start, a turn and the end give.
-/

namespace Bulletin.Demo

structure Setup where
  sync : Name
  sub : Name
  publ : Name
  deriving DecidableEq, Repr

inductive Refusal where
  /-- There are not three arguments. -/
  | usage
  /-- An argument is no name. -/
  | badPrefix (argument : String) (error : FormatError)
  deriving DecidableEq, Repr

namespace Refusal

def exitCode : Refusal → UInt32
  | usage => 2
  | badPrefix _ _ => 1

/-- The text with four blanks at the start of every line but the first. -/
def indent (text : String) : String :=
  String.ofList (text.toList.flatMap fun c => if c = '\n' then '\n' :: List.replicate 4 ' ' else [c])

def text : Refusal → String
  | usage => "usage: pubsync-demo SYNC-PREFIX SUB-PREFIX PUB-PREFIX\n"
  | badPrefix argument error =>
    "Error: invalid name prefix " ++ Text.quoted argument ++ "\n\nCaused by:\n    " ++
      indent error.message ++ "\n"

end Refusal

def parseArgument (argument : String) : Except Refusal Name :=
  (Name.ofUri argument).mapError (.badPrefix argument)

/-- What a command line asks for; of several faulty arguments the first one is reported. -/
def parse (arguments : List String) : Except Refusal Setup :=
  match arguments with
  | [sync, sub, publ] => do
    return ⟨← parseArgument sync, ← parseArgument sub, ← parseArgument publ⟩
  | _ => .error .usage

def startLine (setup : Setup) : String :=
  "INFO starting sync=" ++ setup.sync.uri ++ " sub=" ++ setup.sub.uri ++ " publ=" ++ setup.publ.uri

def stopLine : String := "INFO stopped"

structure State where
  setup : Setup
  home : Session
  peer : Session
  /-- How many turns there were. -/
  turns : Nat

def start (setup : Setup) : State :=
  let make (role : String) (topic : Name) : Session :=
    let config : SessionConfig := { label := some (setup.sync.uri ++ role) }
    ((Session.fresh config (.lifecycle config.window)).subscribe topic).session
  { setup
    home := make " local" setup.sub
    peer := make " peer" setup.publ
    turns := 0 }

def updateLine (p : Publication) : String :=
  let stamp :=
    match p.timestamp? with
    | some t => " ts=" ++ decimal t.toNat
    | none => ""
  "INFO UPDATE name=" ++ p.name.uri ++ " payload=" ++ Text.ofBytes p.payload ++ stamp

def receiptLine? : Event → Option String
  | .receipt _ p true => some ("INFO CONFIRM name=" ++ p.name.uri)
  | .receipt _ p false => some ("WARN LOST name=" ++ p.name.uri)
  | _ => none

def deliveryLine? : Event → Option String
  | .delivery _ p => some (updateLine p)
  | _ => none

/-- One turn: both sides publish, and each answers the other. The answer is the demo afterwards and the
lines of the log. -/
def turn (state : State) (now : Timestamp) : Except SessionError (State × List String) := do
  let turns := state.turns + 1
  let name := state.setup.publ.appendGeneric (utf8 (Nat.toDigits 10 turns))
  let published := state.home.publish name (utf8 (Nat.toDigits 10 turns)) now (some "publish")
  let outcome ← published.answer
  let peerName := state.setup.sub.appendGeneric (utf8 ("peer-" ++ decimal turns).toList)
  let offered := state.peer.publish peerName (utf8 ("msg " ++ decimal turns).toList) now none
  let _ ← offered.answer
  let (_, home, peer, first) ← Pair.transfer published.session offered.session now
  let (_, peer, home, second) ← Pair.transfer peer home now
  let lines :=
    ["INFO PUBLISH name=" ++ name.uri ++ " id=" ++ outcome.id.short] ++
      (first ++ second).filterMap receiptLine? ++ second.filterMap deliveryLine?
  return ({ state with home, peer, turns }, lines)

end Bulletin.Demo
