import RustDemo.WsChat.Backlog
import RustDemo.WsChat.Posts

/-!
# A client and the log

What a client is sent from its opening on: first the young entries of the log as
it is at that moment, then one frame for each later entry, with the errors of its
own frames in between.  So the log goes on for the client where the backlog ends.
-/

namespace RustDemo.WsChat

open RustDemo.Transition

/-- The frame shows all clients what the entry has: a chat message, a join or a leave. -/
inductive Shows (crates : Crates) : WsMessage → LogMessage → Prop where
  | message {msg : WsMessage} {simple : Message} (reads : simpleMsg? crates msg = some simple)
      (now : Int) : Shows crates msg (simple.intoLog now)
  | joined (nick : String) (now : Int) :
      Shows crates
        (.text (crates.debug (frame "/joined"
          (Message.toValue ⟨"system", nick ++ " has joined the chat."⟩))))
        (Message.intoLog ⟨"system", nick ++ " has joined the chat."⟩ now)
  | left (nick : String) (now : Int) :
      Shows crates
        (.text (crates.debug (frame "/left"
          (Message.toValue ⟨"system", nick ++ " has left the chat."⟩))))
        (Message.intoLog ⟨"system", nick ++ " has left the chat."⟩ now)

/-- The frames show the entries one after the other, and may answer with errors in between. -/
inductive Continues (crates : Crates) : List Output → List LogMessage → Prop where
  | nil : Continues crates [] []
  | entry {frames : List Output} {entries : List LogMessage} (earlier : Continues crates frames entries)
      {message : WsMessage} {entry : LogMessage} (shows : Shows crates message entry) :
      Continues crates (frames ++ [.broadcast message]) (entries ++ [entry])
  | error {frames : List Output} {entries : List LogMessage} (earlier : Continues crates frames entries)
      (content : Value) :
      Continues crates (frames ++ [.send (crates.debug (frame "/error" content))]) entries

namespace Chat

variable {κ : Type} [DecidableEq κ]

/-! ## What a client is sent -/

/-- The frames of a record that go to the client: those of its own handler, and those to all. -/
def toClient (k : κ) (sent : List (κ × Output)) : List Output :=
  sent.filterMap fun (origin, output) =>
    match output with
    | .broadcast message => some (.broadcast message)
    | .send text => if origin = k then some (.send text) else none

theorem toClient_append (k : κ) (sent later : List (κ × Output)) :
    toClient k (sent ++ later) = toClient k sent ++ toClient k later := List.filterMap_append

/-- The log, the time and the number of frames sent so far when a connection opened. -/
structure Opening where
  log : List LogMessage
  now : Int
  sent : Nat

def opening (chat : Chat κ) (event : Event κ) (openings : κ → Opening) : κ → Opening :=
  match event with
  | .onOpen k now =>
      Function.update openings k ⟨chat.shared.messageLog, now, chat.sent.length⟩
  | _ => openings

variable (crates : Crates) (messageLog : List LogMessage)

def recorded : System (Chat κ × (κ → Opening)) (Event κ) :=
  (system crates messageLog).recording (fun _ => ⟨[], 0, 0⟩) opening

/-- All that one event can do to the log, the frames and the record of the openings. -/
inductive Tells (chat : Chat κ) (openings : κ → Opening) : Chat κ → (κ → Opening) → Prop where
  | opened {k : κ} (absent : chat.connections k = .absent) (now : Int)
      (completes : (ChatHandler.onOpen crates chat.shared now).panics = false) :
      Tells chat openings
        (chat.update k (.opened ⟨none⟩) chat.shared
          (ChatHandler.onOpen crates chat.shared now).outputs)
        (Function.update openings k ⟨chat.shared.messageLog, now, chat.sent.length⟩)
  | told {k : κ} {handler : ChatHandler} (live : chat.connections k = .opened handler)
      (after : ChatHandler) (content : Value) :
      Tells chat openings
        (chat.update k (.opened after) chat.shared
          [.send (crates.debug (frame "/error" content))]) openings
  | logged {k : κ} {handler : ChatHandler} (live : chat.connections k = .opened handler)
      (connection : Connection) {after : Shared} {message : WsMessage} {entry : LogMessage}
      (log : after.messageLog = chat.shared.messageLog ++ [entry])
      (shows : Shows crates message entry) :
      Tells chat openings (chat.update k connection after [.broadcast message]) openings
  | left {k : κ} {handler : ChatHandler} (live : chat.connections k = .opened handler) :
      Tells chat openings (chat.update k .closed chat.shared []) openings

variable {crates messageLog}

/--
From its opening on a client was sent the backlog, and then frames that follow
the entries that the log has gained since.
-/
structure CaughtUp (crates : Crates) (chat : Chat κ) (k : κ) (opening : Opening) : Prop where
  sent : opening.sent ≤ chat.sent.length
  completes : (ChatHandler.onOpen crates ⟨opening.log, ∅⟩ opening.now).panics = false
  follows : ∃ frames entries, chat.shared.messageLog = opening.log ++ entries ∧
    Continues crates frames entries ∧
    toClient k (chat.sent.drop opening.sent) =
      (ChatHandler.onOpen crates ⟨opening.log, ∅⟩ opening.now).outputs ++ frames

theorem CaughtUp.update {chat : Chat κ} {k j : κ} {opening : Opening}
    (caughtUp : CaughtUp crates chat k opening) (connection : Connection) {shared : Shared}
    {outputs frames : List Output} {entries : List LogMessage}
    (log : shared.messageLog = chat.shared.messageLog ++ entries)
    (new : toClient k (outputs.map fun output => (j, output)) = frames)
    (longer : ∀ earlier shown, Continues crates earlier shown →
      Continues crates (earlier ++ frames) (shown ++ entries)) :
    CaughtUp crates (chat.update j connection shared outputs) k opening := by
  obtain ⟨within, completes, before, shown, grown, follows, told⟩ := caughtUp
  refine ⟨Nat.le_trans within (List.length_append ▸ Nat.le_add_right _ _), completes,
    before ++ frames, shown ++ entries, ?_, longer _ _ follows, ?_⟩
  · rw [← List.append_assoc, ← grown]
    exact log
  · change toClient k ((chat.sent ++ _).drop opening.sent) = _
    rw [List.drop_append_of_le_length within, toClient_append, told, new, List.append_assoc]

end Chat

end RustDemo.WsChat
