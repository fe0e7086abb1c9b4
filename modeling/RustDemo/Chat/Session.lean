import RustDemo.Chat.Server
import RustDemo.Chat.Json
import RustDemo.Text.Trim

/-!
# The session actors

A `ChatSession` serves a TCP connection and a `WsChatSession` a websocket.  A
handler is a function of the actor's state; what it asks of its context is
returned as a list of effects.  The clock counts nanoseconds.
-/

namespace RustDemo.Chat

open RustDemo.Text

/-- What is written to the peer: a response, or a websocket frame. -/
inductive Frame where
  | response (response : ChatResponse)
  | text (text : String)
  | ping
  | pong (bytes : List UInt8)
  deriving DecidableEq

/--
What a handler asks of its context: a message to the server, the same with
`wait` for the answer, a frame to the peer, and `stop`.
-/
inductive Effect (ρ : Type) where
  | doSend (request : Request ρ)
  | sendWait (request : Request ρ)
  | write (frame : Frame)
  | stop

/-- Without a sign of life for more than ten seconds a peer is dropped. -/
def CLIENT_TIMEOUT : Nat := 10 * 10 ^ 9

/-! ## TCP -/

structure ChatSession where
  id : Nat
  hb : Nat
  room : String

namespace ChatSession

variable {ρ : Type}

def new (now : Nat) : ChatSession := ⟨0, now, "Main"⟩

/-- `started` registers the session; `wait` holds everything else back. -/
def started (addr : ρ) : List (Effect ρ) := [.sendWait (.connect addr)]

/-- The answer to `Connect`. -/
def connected (session : ChatSession) : Option Nat → ChatSession × List (Effect ρ)
  | some id => ({ session with id := id }, [])
  | none => (session, [.stop])

def stopping (session : ChatSession) : List (Effect ρ) := [.doSend (.disconnect session.id)]

/-- The main event loop for client requests. -/
def handle (session : ChatSession) (now : Nat) : ChatRequest → ChatSession × List (Effect ρ)
  | .list => (session, [.sendWait .listRooms])
  | .join name =>
      ({ session with room := name },
        [.doSend (.join session.id name), .write (.response (.joined name))])
  | .message message => (session, [.doSend (.message session.id message session.room)])
  | .ping => ({ session with hb := now }, [])

/-- The answer to `ListRooms`. -/
def listed : Option (List String) → List (Effect ρ)
  | some rooms => [.write (.response (.rooms rooms))]
  | none => []

/-- `Handler<Message>`. -/
def handleMessage (text : String) : List (Effect ρ) := [.write (.response (.message text))]

/-- The interval that `hb` registers. -/
def interval (session : ChatSession) (now : Nat) : List (Effect ρ) :=
  (if now - session.hb > CLIENT_TIMEOUT then [.doSend (.disconnect session.id), .stop] else []) ++
    [.write (.response .ping)]

end ChatSession

/-! ## Websocket -/

/-- `ws::Message`. -/
inductive WsMessage where
  | ping (bytes : List UInt8)
  | pong
  | text (text : String)
  | binary
  | close

structure WsChatSession where
  id : Nat
  hb : Nat
  room : String
  name : Option String

namespace WsChatSession

variable {ρ : Type}

def new (now : Nat) : WsChatSession := ⟨0, now, "Main", none⟩

def started (addr : ρ) : List (Effect ρ) := [.sendWait (.connect addr)]

def connected (session : WsChatSession) : Option Nat → WsChatSession × List (Effect ρ)
  | some id => ({ session with id := id }, [])
  | none => (session, [.stop])

def stopping (session : WsChatSession) : List (Effect ρ) := [.doSend (.disconnect session.id)]

/-- `Handler<session::Message>`. -/
def handleMessage (text : String) : List (Effect ρ) := [.write (.text text)]

/-- What a text of the peer becomes for the others. -/
def relayed (session : WsChatSession) (text : String) : String :=
  match session.name with
  | some name => name ++ ": " ++ trim text
  | none => trim text

/-- WebSocket message handler -/
def handle (session : WsChatSession) (now : Nat) : WsMessage → WsChatSession × List (Effect ρ)
  | .ping bytes => ({ session with hb := now }, [.write (.pong bytes)])
  | .pong => ({ session with hb := now }, [])
  | .text text =>
      (session, [.doSend (.message session.id (session.relayed text) session.room)])
  | .binary => (session, [.doSend (.message session.id "binary" session.room)])
  | .close => (session, [.stop])

/-- The interval that `hb` registers; unlike TCP it returns before the ping. -/
def interval (session : WsChatSession) (now : Nat) : List (Effect ρ) :=
  if now - session.hb > CLIENT_TIMEOUT then [.doSend (.disconnect session.id), .stop]
  else [.write .ping]

end WsChatSession

inductive Actor where
  | tcp (session : ChatSession)
  | ws (session : WsChatSession)

namespace Actor

variable {ρ : Type}

def id : Actor → Nat
  | tcp session => session.id
  | ws session => session.id

def room : Actor → String
  | tcp session => session.room
  | ws session => session.room

def started (addr : ρ) : Actor → List (Effect ρ)
  | tcp _ => ChatSession.started addr
  | ws _ => WsChatSession.started addr

def connected (actor : Actor) (res : Option Nat) : Actor × List (Effect ρ) :=
  match actor with
  | tcp session =>
      let (session, effects) := session.connected res
      (tcp session, effects)
  | ws session =>
      let (session, effects) := session.connected res
      (ws session, effects)

/-- Only a `ChatSession` ever asks for the rooms. -/
def listed (rooms : Option (List String)) : Actor → List (Effect ρ)
  | tcp _ => ChatSession.listed rooms
  | ws _ => []

def handleMessage (text : String) : Actor → List (Effect ρ)
  | tcp _ => ChatSession.handleMessage text
  | ws _ => WsChatSession.handleMessage text

def interval (actor : Actor) (now : Nat) : List (Effect ρ) :=
  match actor with
  | tcp session => session.interval now
  | ws session => session.interval now

def stopping : Actor → List (Effect ρ)
  | tcp session => session.stopping
  | ws session => session.stopping

/-! ### What both kinds have in common -/

theorem connected_eq (actor : Actor) (id : Nat) :
    (actor.connected (some id) : Actor × List (Effect ρ)).2 = [] ∧
      (actor.connected (some id) : Actor × List (Effect ρ)).1.id = id ∧
      (actor.connected (some id) : Actor × List (Effect ρ)).1.room = actor.room := by
  cases actor <;> exact ⟨rfl, rfl, rfl⟩

theorem stopping_eq (actor : Actor) :
    (actor.stopping : List (Effect ρ)) = [.doSend (.disconnect actor.id)] := by
  cases actor <;> rfl

theorem handleMessage_eq (actor : Actor) (text : String) :
    ∃ frame, (actor.handleMessage text : List (Effect ρ)) = [.write frame] := by
  cases actor <;> exact ⟨_, rfl⟩

theorem listed_eq (actor : Actor) (rooms : List String) :
    ∃ frames : List Frame, (actor.listed (some rooms) : List (Effect ρ)) = frames.map .write := by
  cases actor with
  | tcp session => exact ⟨[.response (.rooms rooms)], rfl⟩
  | ws session => exact ⟨[], rfl⟩

/-- A tick pings, or reports the departure and stops, after which TCP still pings. -/
theorem interval_eq (actor : Actor) (now : Nat) :
    ∃ pings : List Frame, (∀ frame ∈ pings, frame = .response .ping ∨ frame = .ping) ∧
      ((actor.interval now : List (Effect ρ)) = pings.map .write ∨
        (actor.interval now : List (Effect ρ)) =
          .doSend (.disconnect actor.id) :: .stop :: pings.map .write) := by
  cases actor with
  | tcp session =>
      refine ⟨[.response .ping], by simp, ?_⟩
      by_cases silent : now - session.hb > CLIENT_TIMEOUT
      · exact Or.inr (by simp [interval, ChatSession.interval, silent, id])
      · exact Or.inl (by simp [interval, ChatSession.interval, silent])
  | ws session =>
      by_cases silent : now - session.hb > CLIENT_TIMEOUT
      · exact ⟨[], by simp, Or.inr (by simp [interval, WsChatSession.interval, silent, id])⟩
      · exact ⟨[.ping], by simp, Or.inl (by simp [interval, WsChatSession.interval, silent])⟩

end Actor

end RustDemo.Chat
