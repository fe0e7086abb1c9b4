import RustDemo.Chat.Responses
import RustDemo.Console.Commands
import RustDemo.Stream.Pipe

/-!
# Clients, connections and server

A chat client is an actor with a framed connection to its session.  What it is
told to do at the console, and each beat of its heart, it encodes into the
connection; what it decodes from the connection it prints.  The session at the
other end decodes one request after another while it is running, and encodes
what it writes.  Bytes arrive in pieces of any size.
-/

namespace RustDemo.Console

open RustDemo.Chat RustDemo.Stream RustDemo.Text RustDemo.Transition

/-- The notice that a handler prints for a line that it does not understand. -/
def complaint (m : String) : List String :=
  if startsWith m '/' then
    let v := splitn m 2 ' '
    match v[0]? with
    | some "/list" => []
    | some "/join" => if v.length = 2 then [] else ["!!! room name is required"]
    | _ => ["!!! unknown command"]
  else []

/-- What a client prints for a response of the server. -/
def printed : ChatResponse → List String
  | .message msg => ["message: " ++ msg]
  | .joined msg => ["!!! joined: " ++ msg]
  | .rooms rooms => ["\n!!! Available rooms:"] ++ rooms ++ [""]
  | .ping => []

/-- What a client prints at a time: its own notices, and what it makes of a response. -/
inductive Output where
  | notice (text : String)
  | response (response : ChatResponse)

def Output.lines : Output → List String
  | .notice text => [text]
  | .response answer => printed answer

/--
A client actor.  The ghost field `asked` has the requests that it wrote so far.
-/
structure Client where
  stopped : Bool
  output : List Output
  asked : List ChatRequest

def Client.read (client : Client) : List ChatResponse :=
  client.output.filterMap fun output =>
    match output with
    | .response response => some response
    | .notice _ => none

/--
The sessions and the server, the client of each session, and the connection
between the two.  The ghost field `taken` has the requests that a session handled.
-/
structure World (ρ : Type) where
  chat : State ρ
  client : ρ → Client
  up : ρ → Pipe UInt8
  down : ρ → Pipe UInt8
  taken : ρ → List ChatRequest

/--
A line for the client, a beat of its heart, bytes that arrive at either end, the
next item of either decoder, the end of the connection at the client, and every
other step of a session or of the server.
-/
inductive Event (ρ : Type) where
  | command (a : ρ) (msg : String)
  | heartbeat (a : ρ)
  | arriveUp (a : ρ) (n : Nat)
  | arriveDown (a : ρ) (n : Nat)
  | request (a : ρ) (now : Nat)
  | response (a : ρ)
  | hangUp (a : ρ)
  | other (label : Label ρ)

namespace World

variable {ρ ε : Type} [DecidableEq ρ]

def new : World ρ where
  chat := State.new
  client _ := ⟨false, [], []⟩
  up _ := .empty
  down _ := .empty
  taken _ := []

/-- `framed.write` of the client. -/
def ask (requests : Json ε ChatRequest) (world : World ρ) (a : ρ) (asked : List ChatRequest) :
    World ρ :=
  { world with
    client := Function.update world.client a
      { world.client a with asked := (world.client a).asked ++ asked }
    up := Function.update world.up a
      { world.up a with
        flight := asked.foldl (fun dst msg => (ClientChatCodec.encode requests msg dst).2)
          (world.up a).flight } }

def print (world : World ρ) (a : ρ) (output : List Output) (stopped : Bool) : World ρ :=
  { world with
    client := Function.update world.client a
      { world.client a with output := (world.client a).output ++ output, stopped := stopped } }

/-- `framed.write` of the sessions, for every response that the step has written. -/
def encoded (responses : Json ε ChatResponse) (world : World ρ) (chat : State ρ) : World ρ :=
  { world with
    chat := chat
    down := fun b =>
      { world.down b with
        flight := (State.responses ((chat.node b).written.drop (world.chat.node b).written.length)).foldl
          (fun dst msg => (ChatCodec.encode responses msg dst).2) (world.down b).flight } }

def setUp (world : World ρ) (a : ρ) (up : Pipe UInt8) : World ρ :=
  { world with up := Function.update world.up a up }

def setDown (world : World ρ) (a : ρ) (down : Pipe UInt8) : World ρ :=
  { world with down := Function.update world.down a down }

variable (clients : ρ → ChatClient) (requests : Json ε ChatRequest)
  (responses : Json ε ChatResponse)

/-- `Handler<ClientCommand>` -/
def command (world : World ρ) (a : ρ) (msg : String) : World ρ :=
  let asked := (handle (clients a) msg).toList
  (world.ask requests a asked).print a ((complaint (trim msg)).map .notice) false

/-- The next request that the session decodes; an error ends the stream and the session. -/
def request (world : World ρ) (a : ρ) (now : Nat) : Option (World ρ) :=
  match ChatCodec.decode requests (world.up a).buffer with
  | (.ok none, _) => none
  | (.ok (some request), rest) =>
      (world.chat.step? (.session a (.request request now))).map fun chat =>
        { (world.encoded responses chat).setUp a { world.up a with buffer := rest } with
          taken := Function.update world.taken a (world.taken a ++ [request]) }
  | (.error _, rest) =>
      (world.chat.step? (.session a .finished)).map fun chat =>
        (world.encoded responses chat).setUp a { world.up a with buffer := rest }

/-- The next response that the client decodes; an error ends the stream and the client. -/
def response (world : World ρ) (a : ρ) : Option (World ρ) :=
  match ClientChatCodec.decode responses (world.down a).buffer with
  | (.ok none, _) => none
  | (.ok (some response), rest) =>
      some ((world.setDown a { world.down a with buffer := rest }).print a [.response response] false)
  | (.error _, rest) =>
      some ((world.setDown a { world.down a with buffer := rest }).print a
        [.notice "Disconnected"] true)

/-- The requests of a session come from its decoder only. -/
def FromDecoder : Label ρ → Bool
  | .session _ (.request _ _) => true
  | _ => false

def step? (world : World ρ) : Event ρ → Option (World ρ)
  | .command a msg =>
      if (world.client a).stopped then none else some (world.command clients requests a msg)
  | .heartbeat a =>
      if (world.client a).stopped then none else some (world.ask requests a [.ping])
  | .arriveUp a n => some (world.setUp a ((world.up a).arrive n))
  | .arriveDown a n => some (world.setDown a ((world.down a).arrive n))
  | .request a now => world.request requests responses a now
  | .response a => if (world.client a).stopped then none else world.response responses a
  | .hangUp a =>
      if (world.client a).stopped then none
      else some (world.print a [.notice "Disconnected"] true)
  | .other label =>
      if FromDecoder label then none
      else (world.chat.step? label).map (world.encoded responses)

/-- Any number of clients, and every order of what happens to them and to the server. -/
def system : System (World ρ) (Event ρ) := ⟨new, step? clients requests responses⟩

end World

end RustDemo.Console
