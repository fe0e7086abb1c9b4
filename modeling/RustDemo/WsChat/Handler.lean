import RustDemo.Collections.HashMap
import RustDemo.Text.JsonString
import RustDemo.Transition.System

/-!
# The chat server of `ws_chat`

One handler serves one websocket.  All handlers share the message log and the
set of users; each has a nick of its own.  The server is single threaded, so an
event of a connection is one step.  Times are nanoseconds since the epoch.
-/

namespace RustDemo.WsChat

open RustDemo.Collections RustDemo.Text RustDemo.Transition

/-- `serde_json::Value`; a number stands as its literal, an object by its fields in key order. -/
inductive Value where
  | null
  | bool (value : Bool)
  | number (literal : String)
  | string (text : String)
  | array (values : List Value)
  | object (fields : List (String × Value))

/-- `ws::Message`. -/
inductive WsMessage where
  | text (text : String)
  | binary (bytes : List UInt8)
  deriving DecidableEq

def WsMessage.asText : WsMessage → Option String
  | .text content => some content
  | .binary bytes => ofUtf8? bytes

structure Wrapper where
  path : String
  content : Value

structure Message where
  nick : String
  message : String
  deriving DecidableEq

structure Join where
  joinNick : String
  deriving DecidableEq

structure LogMessage where
  nick : String
  sent : Option Int
  message : String
  deriving DecidableEq

def Value.asString : Value → Option String
  | .string content => some content
  | _ => none

/--
What a derived `Deserialize` makes of a struct whose fields are strings: an
object with these fields, and any others, or an array of just their values.
-/
def Value.strings (names : List String) : Value → Option (List String)
  | .object fields => names.mapM fun name => (fields.lookup name).bind asString
  | .array values => if values.length = names.length then values.mapM asString else none
  | _ => none

def Message.fromValue (value : Value) : Option Message :=
  match value.strings ["nick", "message"] with
  | some [nick, message] => some ⟨nick, message⟩
  | _ => none

def Join.fromValue (value : Value) : Option Join :=
  match value.strings ["join_nick"] with
  | some [joinNick] => some ⟨joinNick⟩
  | _ => none

/-- `json!` on a message. -/
def Message.toValue (message : Message) : Value :=
  .object [("message", .string message.message), ("nick", .string message.nick)]

/-- The frame for a path and a content. -/
def frame (path : String) (content : Value) : Value :=
  .object [("content", content), ("path", .string path)]

def LogMessage.toMessage (entry : LogMessage) : Message := ⟨entry.nick, entry.message⟩

def nanosPerSecond : Int := 1000000000

/-- The nanoseconds of the time are discarded. -/
def Message.intoLog (message : Message) (now : Int) : LogMessage :=
  ⟨message.nick, some (now / nanosPerSecond), message.message⟩

/-- What the server takes from its crates: `serde_json::from_str` and the texts of `{:?}`. -/
structure Crates where
  fromStr : String → Option Wrapper
  debug : Value → String
  debugMessage : WsMessage → String

/-- What every handler has access to. -/
structure Shared where
  messageLog : List LogMessage
  users : HashSet String

/-- A frame to the own client, or to all clients. -/
inductive Output where
  | send (text : String)
  | broadcast (message : WsMessage)
  deriving DecidableEq

/-- `chunks`; the last one may be shorter. -/
def chunks {α : Type} (size : Nat) (items : List α) : List (List α) :=
  fill [] items
where
  fill (chunk : List α) : List α → List (List α)
    | [] => if chunk.isEmpty then [] else [chunk]
    | item :: items =>
        if chunk.length + 1 = size then (chunk ++ [item]) :: fill [] items
        else fill (chunk ++ [item]) items

/-- `i64::MAX` milliseconds in whole seconds, the bound of a `Duration`. -/
def longestSeconds : Int := 9223372036854775807 / 1000

/--
`time::get_time() - Timespec::new(sent, 0)`.  The seconds are subtracted as `i64`,
and `Duration::seconds` panics if there are too many of them.
-/
def age? (now sent : Int) : Option Int :=
  let sec := now / nanosPerSecond - sent
  if -longestSeconds ≤ sec ∧ sec ≤ longestSeconds then
    some (sec * nanosPerSecond + now % nanosPerSecond)
  else none

/-- The frames that a new client is sent, and whether a panic came after them. -/
structure Replay where
  outputs : List Output
  panics : Bool

/-- The second part is reached if the first one does not panic. -/
def Replay.andThen (first second : Replay) : Replay :=
  if first.panics then first else ⟨first.outputs ++ second.outputs, second.panics⟩

/-- The handler of one connection, apart from what it shares. -/
structure ChatHandler where
  nick : Option String

namespace ChatHandler

variable (crates : Crates)

/-- The entries of a chunk that are less than ten minutes old. -/
def replay (now : Int) : List LogMessage → Replay
  | [] => ⟨[], false⟩
  | entry :: entries =>
      match entry.sent with
      | some sent =>
          match age? now sent with
          | some age =>
              if age < 10 * 60 * nanosPerSecond then
                Replay.andThen
                  ⟨[.send (crates.debug (frame "/message" entry.toMessage.toValue))], false⟩
                  (replay now entries)
              else replay now entries
          | none => ⟨[], true⟩
      | none => replay now entries

/-- `on_open` -/
def onOpen (shared : Shared) (now : Int) : Replay :=
  -- two chunks, because one might not be a full 50, and the older one first
  match (chunks 50 shared.messageLog).reverse.take 2 with
  | [] => ⟨[], false⟩
  | [msgs1] => replay crates now msgs1
  | msgs1 :: msgs2 :: _ => (replay crates now msgs2).andThen (replay crates now msgs1)

/-- `on_message` -/
def onMessage (handler : ChatHandler) (shared : Shared) (now : Int) (msg : WsMessage) :
    ChatHandler × Shared × Output :=
  let unable := (handler, shared, Output.send (crates.debug (frame "/error"
    (.string ("Unable to parse message " ++ crates.debugMessage msg)))))
  match msg.asText.bind crates.fromStr with
  | some wrapper =>
      match Message.fromValue wrapper.content with
      | some simpleMsg =>
          (handler, { shared with messageLog := shared.messageLog ++ [simpleMsg.intoLog now] },
            .broadcast msg)
      | none =>
          match Join.fromValue wrapper.content with
          | some join =>
              if join.joinNick ∈ shared.users then
                (handler, shared, .send (crates.debug (frame "/error"
                  (.string "A user by that name already exists."))))
              else
                let joinMsg : Message := ⟨"system", join.joinNick ++ " has joined the chat."⟩
                (⟨some join.joinNick⟩,
                  { messageLog := shared.messageLog ++ [joinMsg.intoLog now]
                    users := shared.users.insert join.joinNick () },
                  .broadcast (.text (crates.debug (frame "/joined" joinMsg.toValue))))
          | none => unable
  | none => unable

/-- `on_close` -/
def onClose (handler : ChatHandler) (shared : Shared) (now : Int) : Shared × List Output :=
  match handler.nick with
  | some nick =>
      let leaveMsg : Message := ⟨"system", nick ++ " has left the chat."⟩
      ({ messageLog := shared.messageLog ++ [leaveMsg.intoLog now]
         users := shared.users.erase nick },
        [.broadcast (.text (crates.debug (frame "/left" leaveMsg.toValue)))])
  | none => (shared, [])

end ChatHandler

/-! ## All connections -/

/-- A connection opens once and closes at most once. -/
inductive Connection where
  | absent
  | opened (handler : ChatHandler)
  | closed

/-- The server; the ghost field `sent` has every frame so far and who caused it. -/
structure Chat (κ : Type) where
  shared : Shared
  connections : κ → Connection
  sent : List (κ × Output)

inductive Event (κ : Type) where
  | onOpen (k : κ) (now : Int)
  | onMessage (k : κ) (msg : WsMessage) (now : Int)
  | onClose (k : κ) (now : Int)

namespace Chat

variable {κ : Type} [DecidableEq κ] (crates : Crates)

def update (chat : Chat κ) (k : κ) (connection : Connection) (shared : Shared)
    (outputs : List Output) : Chat κ where
  shared := shared
  connections := Function.update chat.connections k connection
  sent := chat.sent ++ outputs.map fun output => (k, output)

def step? (chat : Chat κ) : Event κ → Option (Chat κ)
  | .onOpen k now =>
      match chat.connections k with
      | .absent =>
          match ChatHandler.onOpen crates chat.shared now with
          | ⟨outputs, false⟩ => some (chat.update k (.opened ⟨none⟩) chat.shared outputs)
          -- a panic ends the server
          | ⟨_, true⟩ => none
      | _ => none
  | .onMessage k msg now =>
      match chat.connections k with
      | .opened handler =>
          let (handler, shared, output) := handler.onMessage crates chat.shared now msg
          some (chat.update k (.opened handler) shared [output])
      | _ => none
  | .onClose k now =>
      match chat.connections k with
      | .opened handler =>
          let (shared, outputs) := handler.onClose crates chat.shared now
          some (chat.update k .closed shared outputs)
      | _ => none

variable {crates} in
/-- A connection opens for the first time, and its replay ends without a panic. -/
theorem opened_of_step? {chat next : Chat κ} {k : κ} {now : Int}
    (stepped : chat.step? crates (.onOpen k now) = some next) :
    chat.connections k = .absent ∧
      (ChatHandler.onOpen crates chat.shared now).panics = false ∧
      next = chat.update k (.opened ⟨none⟩) chat.shared
        (ChatHandler.onOpen crates chat.shared now).outputs := by
  rw [step?] at stepped
  split at stepped
  · rename_i absent
    split at stepped <;> cases stepped
    rename_i completes
    rw [completes]
    exact ⟨absent, rfl, rfl⟩
  · cases stepped

/-- The server with the log that it loaded. -/
def new (messageLog : List LogMessage) : Chat κ := ⟨⟨messageLog, ∅⟩, fun _ => .absent, []⟩

def system (messageLog : List LogMessage) : System (Chat κ) (Event κ) :=
  ⟨new messageLog, step? crates⟩

/-- The nick of an open connection. -/
def Holds (chat : Chat κ) (k : κ) (nick : String) : Prop :=
  chat.connections k = .opened ⟨some nick⟩

end Chat

end RustDemo.WsChat
