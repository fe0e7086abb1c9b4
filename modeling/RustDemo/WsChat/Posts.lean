import RustDemo.WsChat.Nicks

/-!
# Posts

A chat message names its author itself.  It goes to the log and to all clients
under that name, whoever sent it.
-/

namespace RustDemo.WsChat.Chat

open RustDemo.Transition

variable {κ : Type} [DecidableEq κ] {crates : Crates}

def logged (chat next : Chat κ) : List LogMessage :=
  next.shared.messageLog.drop chat.shared.messageLog.length

def broadcast? : Output → Option WsMessage
  | .broadcast message => some message
  | .send _ => none

def broadcasts (chat next : Chat κ) : List WsMessage :=
  (next.sent.drop chat.sent.length).filterMap fun frame => broadcast? frame.2

theorem logged_update (chat : Chat κ) (k : κ) (connection : Connection) {shared : Shared}
    {entries : List LogMessage} (log : shared.messageLog = chat.shared.messageLog ++ entries)
    (outputs : List Output) : logged chat (chat.update k connection shared outputs) = entries := by
  simp [logged, update, log]

theorem broadcasts_update (chat : Chat κ) (k : κ) (connection : Connection) (shared : Shared)
    (outputs : List Output) :
    broadcasts chat (chat.update k connection shared outputs) = outputs.filterMap broadcast? := by
  simp [broadcasts, update, List.filterMap_map]

/-- A chat message is logged under the nick that it names and goes to all clients as it came. -/
theorem posted_of_step? {chat next : Chat κ} {k : κ} {msg : WsMessage} {now : Int}
    {simple : Message} (reads : simpleMsg? crates msg = some simple)
    (stepped : chat.step? crates (.onMessage k msg now) = some next) :
    logged chat next = [simple.intoLog now] ∧ broadcasts chat next = [msg] := by
  cases stepped_of_step? stepped with
  | responded live responds =>
      cases responds with
      | posted found =>
          cases reads.symm.trans found
          exact ⟨logged_update chat k _ rfl _, broadcasts_update chat k _ _ _⟩
      | answered unread refused text =>
          rw [reads] at unread
          cases unread
      | joined joins free entry output =>
          rw [join?, reads] at joins
          cases joins

/-! ## Who may post -/

/-- The connection holds the nick, and it is not the one of the server's own messages. -/
def SpeaksAs (chat : Chat κ) (k : κ) (nick : String) : Prop :=
  chat.Holds k nick ∧ nick ≠ "system"

variable (crates) in
/--
The step does not impersonate anyone: what a chat message adds to the log and
what it broadcasts carry the nick under which the sender has joined, and a
message under another nick adds nothing and broadcasts nothing.
-/
structure Genuine (chat : Chat κ) (k : κ) (simple : Message) (next : Chat κ) : Prop where
  log : ∀ entry ∈ logged chat next, chat.SpeaksAs k entry.nick
  frames : ∀ frame ∈ broadcasts chat next,
    ∃ shown, simpleMsg? crates frame = some shown ∧ chat.SpeaksAs k shown.nick
  silent : ¬ chat.SpeaksAs k simple.nick → logged chat next = [] ∧ broadcasts chat next = []

variable (crates) in
/-- Chat messages are not impersonated in the step that the event takes. -/
def NoImpersonation (chat : Chat κ) (event : Event κ) : Prop :=
  ∀ k msg now simple next, event = .onMessage k msg now → simpleMsg? crates msg = some simple →
    chat.step? crates event = some next → Genuine crates chat k simple next

variable (crates) in
/-- A chat message that arrives names the connection that it comes from. -/
def NamesItself (chat : Chat κ) (event : Event κ) : Prop :=
  ∀ k msg now simple, event = .onMessage k msg now → simpleMsg? crates msg = some simple →
    chat.SpeaksAs k simple.nick

theorem genuine_iff {chat next : Chat κ} {k : κ} {msg : WsMessage} {now : Int} {simple : Message}
    (reads : simpleMsg? crates msg = some simple)
    (stepped : chat.step? crates (.onMessage k msg now) = some next) :
    Genuine crates chat k simple next ↔ chat.SpeaksAs k simple.nick := by
  obtain ⟨log, frames⟩ := posted_of_step? reads stepped
  constructor
  · intro genuine
    have entry : simple.intoLog now ∈ logged chat next := by
      rw [log]
      exact List.mem_singleton_self _
    exact genuine.log _ entry
  · intro speaks
    refine ⟨?_, ?_, fun silent => absurd speaks silent⟩
    · intro entry listed
      rw [log] at listed
      cases List.mem_singleton.mp listed
      exact speaks
    · intro frame listed
      rw [frames] at listed
      cases List.mem_singleton.mp listed
      exact ⟨simple, reads, speaks⟩

theorem noImpersonation_iff {chat next : Chat κ} {event : Event κ}
    (stepped : chat.step? crates event = some next) :
    NoImpersonation crates chat event ↔ NamesItself crates chat event := by
  constructor
  · rintro genuine k msg now simple rfl reads
    exact (genuine_iff reads stepped).mp (genuine k msg now simple next rfl reads stepped)
  · rintro names k msg now simple after rfl reads taken
    exact (genuine_iff reads taken).mpr (names k msg now simple rfl reads)

/--
No impersonation.  In every order of the events no chat message is logged or
broadcast under a nick that is not the one of its sender, exactly if every chat
message that arrives names its sender.
-/
theorem meets_noImpersonation_iff {messageLog : List LogMessage} {history : List (Event κ)}
    {chat : Chat κ} (run : (system crates messageLog).run? history = some chat) :
    (system crates messageLog).Meets (NoImpersonation crates) history ↔
      (system crates messageLog).Meets (NamesItself crates) history :=
  (system crates messageLog).meets_congr run fun _ _ _ _ _ stepped => noImpersonation_iff stepped

def annSays : String :=
  "\x7b\"path\":\"/message\",\"content\":\x7b\"nick\":\"ann\",\"message\":\"hi\"\x7d\x7d"

def readPosts (text : String) : Option Wrapper :=
  if text = annSays then
    some ⟨"/message", .object [("message", .string "hi"), ("nick", .string "ann")]⟩
  else readJoins text

def postCrates : Crates := ⟨readPosts, debugValue, debugMessage⟩

def oneJoins : List (Event Nat) :=
  [.onOpen 1 0, .onOpen 2 0, .onMessage 1 (.text annJoins) 0]

/-- The connection without a nick posts under the nick of the other one. -/
theorem unjoined_posts_as_ann : ∃ chat next : Chat Nat,
    (system postCrates []).run? oneJoins = some chat ∧
      chat.step? postCrates (.onMessage 2 (.text annSays) 0) = some next ∧
        (∀ nick, ¬ chat.Holds 2 nick) ∧ logged chat next = [⟨"ann", some 0, "hi"⟩] ∧
          broadcasts chat next = [.text annSays] :=
  ⟨_, _, rfl, rfl, fun _ held => (by cases held), rfl, rfl⟩

theorem meets_noImpersonation_iff_unjoined :
    ¬ (system postCrates [] : System (Chat Nat) (Event Nat)).Meets (NoImpersonation postCrates)
      (oneJoins ++ [.onMessage 2 (.text annSays) 0]) := by
  intro meets
  have names := (@meets_noImpersonation_iff Nat _ postCrates [] _ _ rfl).mp meets
  have last := ((System.meets_snoc _ oneJoins _).mp names).2 _ rfl
  have speaks := last 2 (.text annSays) 0 ⟨"ann", "hi"⟩ rfl rfl
  cases speaks.1

end RustDemo.WsChat.Chat
