import RustDemo.WsChat.Handler

/-!
# Nicks

The set of users, the nick in each handler and the nick in a message are three
things.  A join checks the first and sets the first two; a message is not
compared with either.  So no two connections hold one nick, but the set keeps
nicks that nobody holds, and a message may carry any nick.
-/

namespace RustDemo.WsChat

open RustDemo.Collections RustDemo.Transition

variable {κ : Type} [DecidableEq κ] {crates : Crates}

def simpleMsg? (crates : Crates) (msg : WsMessage) : Option Message :=
  (msg.asText.bind crates.fromStr).bind fun wrapper => Message.fromValue wrapper.content

/-- The join in a frame; what reads as a chat message is none. -/
def join? (crates : Crates) (msg : WsMessage) : Option Join :=
  match simpleMsg? crates msg with
  | some _ => none
  | none => (msg.asText.bind crates.fromStr).bind fun wrapper => Join.fromValue wrapper.content

/-- All that `on_message` can do. -/
inductive Responds (crates : Crates) (handler : ChatHandler) (shared : Shared) (now : Int)
    (msg : WsMessage) : ChatHandler × Shared × Output → Prop where
  | posted {simple : Message} (reads : simpleMsg? crates msg = some simple) :
      Responds crates handler shared now msg
        (handler, { shared with messageLog := shared.messageLog ++ [simple.intoLog now] },
          .broadcast msg)
  | answered (unread : simpleMsg? crates msg = none)
      (refused : ∀ join, join? crates msg = some join → join.joinNick ∈ shared.users)
      (text : String) : Responds crates handler shared now msg (handler, shared, .send text)
  | joined {join : Join} (reads : join? crates msg = some join)
      (free : join.joinNick ∉ shared.users) (entry : LogMessage) (output : Output) :
      Responds crates handler shared now msg
        (⟨some join.joinNick⟩,
          { messageLog := shared.messageLog ++ [entry]
            users := shared.users.insert join.joinNick () }, output)

theorem responds_onMessage (handler : ChatHandler) (shared : Shared) (now : Int)
    (msg : WsMessage) :
    Responds crates handler shared now msg (handler.onMessage crates shared now msg) := by
  unfold ChatHandler.onMessage
  cases wrapped : msg.asText.bind crates.fromStr with
  | none =>
      have unread : simpleMsg? crates msg = none := by simp [simpleMsg?, wrapped]
      have nothing : join? crates msg = none := by simp [join?, unread, wrapped]
      exact .answered unread (fun join reads => by rw [nothing] at reads; cases reads) _
  | some wrapper =>
      dsimp only
      cases simple : Message.fromValue wrapper.content with
      | some simpleMsg => exact .posted (by simp [simpleMsg?, wrapped, simple])
      | none =>
          have unread : simpleMsg? crates msg = none := by simp [simpleMsg?, wrapped, simple]
          have reads : join? crates msg = Join.fromValue wrapper.content := by
            simp [join?, unread, wrapped]
          cases joins : Join.fromValue wrapper.content with
          | none =>
              rw [joins] at reads
              exact .answered unread (fun join found => by rw [reads] at found; cases found) _
          | some join =>
              rw [joins] at reads
              dsimp only
              split
              · rename_i taken
                refine .answered unread (fun other found => ?_) _
                cases reads.symm.trans found
                exact taken
              · rename_i free
                exact .joined reads free _ _

namespace Chat

/-- All that one event can do to the log, the users, the nicks and the frames. -/
inductive Stepped (crates : Crates) (chat : Chat κ) : Event κ → Chat κ → Prop where
  | opened {k : κ} {now : Int} (absent : chat.connections k = .absent) (outputs : List Output) :
      Stepped crates chat (.onOpen k now) (chat.update k (.opened ⟨none⟩) chat.shared outputs)
  | responded {k : κ} {msg : WsMessage} {now : Int} {handler after : ChatHandler}
      {shared : Shared} {output : Output} (live : chat.connections k = .opened handler)
      (responds : Responds crates handler chat.shared now msg (after, shared, output)) :
      Stepped crates chat (.onMessage k msg now) (chat.update k (.opened after) shared [output])
  | closed {k : κ} {now : Int} {nick : String} (holds : chat.Holds k nick) (entry : LogMessage)
      (outputs : List Output) :
      Stepped crates chat (.onClose k now) (chat.update k .closed
        { messageLog := chat.shared.messageLog ++ [entry], users := chat.shared.users.erase nick }
        outputs)
  | left {k : κ} {now : Int} (live : chat.connections k = .opened ⟨none⟩) :
      Stepped crates chat (.onClose k now) (chat.update k .closed chat.shared [])

theorem stepped_of_step? {chat next : Chat κ} {event : Event κ}
    (stepped : chat.step? crates event = some next) : Stepped crates chat event next := by
  cases event with
  | onOpen k now =>
      obtain ⟨absent, -, rfl⟩ := opened_of_step? stepped
      exact .opened absent _
  | onMessage k msg now =>
      rw [step?] at stepped
      split at stepped <;> cases stepped
      rename_i handler live
      exact .responded live (responds_onMessage handler chat.shared now msg)
  | onClose k now =>
      rw [step?] at stepped
      split at stepped <;> cases stepped
      rename_i handler live
      obtain ⟨nick | nick⟩ := handler
      · exact .left live
      · exact .closed live _ _

@[simp] theorem holds_update_self (chat : Chat κ) (k : κ) (connection : Connection)
    (shared : Shared) (outputs : List Output) (nick : String) :
    (chat.update k connection shared outputs).Holds k nick ↔ connection = .opened ⟨some nick⟩ := by
  simp [Holds, update]

theorem holds_update_of_ne (chat : Chat κ) {j k : κ} (other : j ≠ k) (connection : Connection)
    (shared : Shared) (outputs : List Output) (nick : String) :
    (chat.update k connection shared outputs).Holds j nick ↔ chat.Holds j nick := by
  simp [Holds, update, other]

theorem holds_update_same (chat : Chat κ) {k : κ} {connection : Connection}
    (same : ∀ nick, connection = .opened ⟨some nick⟩ ↔ chat.Holds k nick) (shared : Shared)
    (outputs : List Output) (j : κ) (nick : String) :
    (chat.update k connection shared outputs).Holds j nick ↔ chat.Holds j nick := by
  by_cases here : j = k
  · subst here
    rw [holds_update_self, same]
  · exact holds_update_of_ne chat here connection shared outputs nick

/-- What an event does to the users and to the nicks that are held. -/
inductive Turns (crates : Crates) (chat : Chat κ) : Event κ → Chat κ → Prop where
  | kept {event : Event κ} {next : Chat κ} (unjoined : ∀ k msg now join,
        event = .onMessage k msg now → join? crates msg = some join →
          join.joinNick ∈ chat.shared.users)
      (holds : ∀ j nick, next.Holds j nick ↔ chat.Holds j nick)
      (users : next.shared.users = chat.shared.users) : Turns crates chat event next
  | joined {k : κ} {msg : WsMessage} {now : Int} {join : Join} {next : Chat κ}
      (reads : join? crates msg = some join) (free : join.joinNick ∉ chat.shared.users)
      (own : ∀ nick, next.Holds k nick ↔ nick = join.joinNick)
      (others : ∀ j nick, j ≠ k → (next.Holds j nick ↔ chat.Holds j nick))
      (users : next.shared.users = chat.shared.users.insert join.joinNick ()) :
      Turns crates chat (.onMessage k msg now) next
  | closed {k : κ} {now : Int} {nick : String} {next : Chat κ} (held : chat.Holds k nick)
      (own : ∀ nick, ¬ next.Holds k nick)
      (others : ∀ j nick, j ≠ k → (next.Holds j nick ↔ chat.Holds j nick))
      (users : next.shared.users = chat.shared.users.erase nick) :
      Turns crates chat (.onClose k now) next

theorem turns_of_step? {chat next : Chat κ} {event : Event κ}
    (stepped : chat.step? crates event = some next) : Turns crates chat event next := by
  cases stepped_of_step? stepped with
  | @opened k now absent outputs =>
      refine .kept nofun (holds_update_same chat (fun nick => ?_) _ _) rfl
      simp [Holds, absent]
  | @responded k msg now handler after shared output live responds =>
      have same : ∀ nick, Connection.opened handler = .opened ⟨some nick⟩ ↔ chat.Holds k nick :=
        fun nick => by rw [Holds, live]
      cases responds with
      | posted reads =>
          refine .kept ?_ (holds_update_same chat same _ _) rfl
          rintro _ _ _ join ⟨⟩ joins
          rw [join?, reads] at joins
          cases joins
      | answered unread refused text =>
          refine .kept ?_ (holds_update_same chat same _ _) rfl
          rintro _ _ _ join ⟨⟩ joins
          exact refused join joins
      | @joined join reads free entry output =>
          refine .joined reads free (fun nick => ?_) (fun j nick other => ?_) rfl
          · rw [holds_update_self]
            simp [eq_comm]
          · exact holds_update_of_ne chat other _ _ _ nick
  | @closed k now nick holds entry outputs =>
      refine .closed holds (fun other => ?_) (fun j other apart => ?_) rfl
      · simp
      · exact holds_update_of_ne chat apart _ _ _ other
  | @left k now live =>
      refine .kept nofun (holds_update_same chat (fun nick => ?_) _ _) rfl
      simp [Holds, live]

/-- Nicks that are held are different, and all of them are among the users. -/
structure Unique (chat : Chat κ) : Prop where
  distinct : ∀ j k nick, chat.Holds j nick → chat.Holds k nick → j = k
  listed : ∀ k nick, chat.Holds k nick → nick ∈ chat.shared.users

omit [DecidableEq κ] in
theorem unique_new (messageLog : List LogMessage) : Unique (new messageLog : Chat κ) where
  distinct _ _ _ held := by cases held
  listed _ _ held := by cases held

omit [DecidableEq κ] in
/-- A nick that is held by another connection is not the one that a connection leaves with. -/
theorem Unique.mem_erase {chat : Chat κ} (unique : chat.Unique) {j k : κ} {nick other : String}
    (leaves : chat.Holds k nick) (held : chat.Holds j other) (apart : j ≠ k) :
    other ∈ chat.shared.users.erase nick := by
  refine AList.mem_erase.mpr ⟨?_, unique.listed j other held⟩
  rintro rfl
  exact apart (unique.distinct j k other held leaves)

theorem Unique.step {chat next : Chat κ} {event : Event κ} (unique : chat.Unique)
    (turns : Turns crates chat event next) : next.Unique := by
  cases turns with
  | kept unjoined holds users =>
      constructor
      · intro j k nick first second
        exact unique.distinct j k nick ((holds j nick).mp first) ((holds k nick).mp second)
      · intro k nick held
        rw [users]
        exact unique.listed k nick ((holds k nick).mp held)
  | @joined k msg now join _ reads free own others users =>
      -- nobody else holds the new nick, for it was not among the users
      have fresh : ∀ j nick, j ≠ k → next.Holds j nick → nick ≠ join.joinNick := by
        rintro j nick other held rfl
        exact free (unique.listed j _ ((others j _ other).mp held))
      constructor
      · intro i j nick first second
        by_cases here : i = k
        · by_cases there : j = k
          · rw [here, there]
          · rw [here] at first
            exact absurd ((own nick).mp first) (fresh j nick there second)
        · by_cases there : j = k
          · rw [there] at second
            exact absurd ((own nick).mp second) (fresh i nick here first)
          · exact unique.distinct i j nick ((others i nick here).mp first)
              ((others j nick there).mp second)
      · intro j nick held
        rw [users, AList.mem_insert]
        by_cases here : j = k
        · rw [here] at held
          exact Or.inl ((own nick).mp held)
        · exact Or.inr (unique.listed j nick ((others j nick here).mp held))
  | @closed k now nick _ held own others users =>
      have apart : ∀ j other, next.Holds j other → j ≠ k ∧ chat.Holds j other := by
        intro j other still
        have different : j ≠ k := by
          rintro rfl
          exact own other still
        exact ⟨different, (others j other different).mp still⟩
      constructor
      · intro i j other first second
        exact unique.distinct i j other (apart i other first).2 (apart j other second).2
      · intro j other still
        obtain ⟨different, before⟩ := apart j other still
        rw [users]
        exact unique.mem_erase held before different

theorem unique_of_run {messageLog : List LogMessage} {history : List (Event κ)} {chat : Chat κ}
    (run : (system crates messageLog).run? history = some chat) : chat.Unique :=
  (system crates messageLog).invariant Unique (unique_new messageLog)
    (fun _ _ _ unique stepped => unique.step (turns_of_step? stepped)) run

/--
Nick uniqueness.  In every order of the events of any number of connections no
two open ones hold the same nick, every nick that is held is among the users,
and a connection that closes takes no nick away that another one holds.
-/
theorem nick_uniqueness {messageLog : List LogMessage} {history : List (Event κ)} {chat : Chat κ}
    (run : (system crates messageLog).run? history = some chat) :
    (∀ j k nick, chat.Holds j nick → chat.Holds k nick → j = k) ∧
      (∀ k nick, chat.Holds k nick → nick ∈ chat.shared.users) ∧
      ∀ k now next, chat.step? crates (.onClose k now) = some next →
        ∀ j nick, j ≠ k → chat.Holds j nick → nick ∈ next.shared.users := by
  have unique := unique_of_run run
  refine ⟨unique.distinct, unique.listed, ?_⟩
  intro k now next stepped j nick other held
  cases turns_of_step? stepped with
  | kept unjoined holds users =>
      rw [users]
      exact unique.listed j nick held
  | closed leaves own others users =>
      rw [users]
      exact unique.mem_erase leaves held other

def annJoins : String := "\x7b\"path\":\"/join\",\"content\":\x7b\"join_nick\":\"ann\"\x7d\x7d"

def bobJoins : String := "\x7b\"path\":\"/join\",\"content\":\x7b\"join_nick\":\"bob\"\x7d\x7d"

def readJoins (text : String) : Option Wrapper :=
  if text = annJoins then some ⟨"/join", .object [("join_nick", .string "ann")]⟩
  else if text = bobJoins then some ⟨"/join", .object [("join_nick", .string "bob")]⟩
  else none

def quoted (text : String) : String := "\"" ++ text ++ "\""

mutual

/-- `{:?}` of a value. -/
def debugValue : Value → String
  | .null => "Null"
  | .bool value => "Bool(" ++ toString value ++ ")"
  | .number literal => "Number(" ++ literal ++ ")"
  | .string text => "String(" ++ quoted text ++ ")"
  | .array values => "Array([" ++ ", ".intercalate (debugValues values) ++ "])"
  | .object fields => "Object(\x7b" ++ ", ".intercalate (debugFields fields) ++ "\x7d)"

def debugValues : List Value → List String
  | [] => []
  | value :: values => debugValue value :: debugValues values

def debugFields : List (String × Value) → List String
  | [] => []
  | (name, value) :: fields => (quoted name ++ ": " ++ debugValue value) :: debugFields fields

end

/-- `{:?}` of a frame. -/
def debugMessage : WsMessage → String
  | .text text => "Text(" ++ quoted text ++ ")"
  | .binary bytes => "Binary(" ++ toString bytes ++ ")"

def joinCrates : Crates := ⟨readJoins, debugValue, debugMessage⟩

/-- Two connections ask for one nick, and the second one then takes another. -/
def twoJoin : List (Event Nat) :=
  [.onOpen 1 0, .onOpen 2 0, .onMessage 1 (.text annJoins) 0, .onMessage 2 (.text annJoins) 0,
    .onMessage 2 (.text bobJoins) 0]

/-- The second nick stays among the users when the first connection closes. -/
theorem nick_uniqueness_two_join : ∃ chat next : Chat Nat,
    (system joinCrates []).run? twoJoin = some chat ∧
      chat.step? joinCrates (.onClose 1 0) = some next ∧ "bob" ∈ next.shared.users := by
  refine ⟨_, _, rfl, rfl, ?_⟩
  have unique := @nick_uniqueness Nat _ joinCrates [] twoJoin _ rfl
  refine unique.2.2 1 0 _ rfl 2 "bob" (by decide) ?_
  show Connection.opened _ = Connection.opened _
  rfl

/-! ## Nicks that are free -/

/-- The users are exactly the nicks that are held. -/
def UsersHeld (chat : Chat κ) : Prop :=
  ∀ nick, nick ∈ chat.shared.users ↔ ∃ k, chat.Holds k nick

variable (crates) in
/-- A join that is accepted comes from a connection without a nick. -/
def JoinsOnce (chat : Chat κ) (event : Event κ) : Prop :=
  ∀ k msg now join, event = .onMessage k msg now → join? crates msg = some join →
    join.joinNick ∉ chat.shared.users → ∀ nick, ¬ chat.Holds k nick

theorem UsersHeld.step {chat next : Chat κ} {event : Event κ} (usersHeld : chat.UsersHeld)
    (unique : chat.Unique) (turns : Turns crates chat event next) :
    next.UsersHeld ↔ JoinsOnce crates chat event := by
  cases turns with
  | kept unjoined holds users =>
      constructor
      · rintro - k msg now join rfl joins free
        exact absurd (unjoined k msg now join rfl joins) free
      · intro _ nick
        rw [users, usersHeld]
        exact exists_congr fun k => (holds k nick).symm
  | @joined k msg now join _ reads free own others users =>
      constructor
      · rintro after _ _ _ _ ⟨⟩ - - nick held
        -- the nick that is given up would stay among the users
        have listed := unique.listed k nick held
        have still : nick ∈ next.shared.users := by
          rw [users, AList.mem_insert]
          exact Or.inr listed
        obtain ⟨j, holds⟩ := (after nick).mp still
        by_cases here : j = k
        · rw [here, own] at holds
          exact free (holds ▸ listed)
        · exact here (unique.distinct j k nick ((others j nick here).mp holds) held)
      · intro once nick
        have nobody := once k msg now join rfl reads free
        rw [users, AList.mem_insert, usersHeld]
        constructor
        · rintro (rfl | ⟨j, held⟩)
          · exact ⟨k, (own join.joinNick).mpr rfl⟩
          · have other : j ≠ k := by
              rintro rfl
              exact nobody nick held
            exact ⟨j, (others j nick other).mpr held⟩
        · rintro ⟨j, holds⟩
          by_cases here : j = k
          · rw [here, own] at holds
            exact Or.inl holds
          · exact Or.inr ⟨j, (others j nick here).mp holds⟩
  | @closed k now nick _ held own others users =>
      refine ⟨fun _ => nofun, fun _ other => ?_⟩
      rw [users]
      constructor
      · intro listed
        obtain ⟨different, among⟩ := AList.mem_erase.mp listed
        obtain ⟨j, holds⟩ := (usersHeld other).mp among
        have apart : j ≠ k := by
          rintro rfl
          cases held.symm.trans holds
          exact different rfl
        exact ⟨j, (others j other apart).mpr holds⟩
      · rintro ⟨j, still⟩
        have apart : j ≠ k := by
          rintro rfl
          exact own other still
        exact unique.mem_erase held ((others j other apart).mp still) apart

/--
In every order of the events the users are at all times exactly the nicks that
open connections hold, exactly if every join that is accepted comes from a
connection without a nick.
-/
theorem always_usersHeld_iff {messageLog : List LogMessage} {history : List (Event κ)}
    {chat : Chat κ} (run : (system crates messageLog).run? history = some chat) :
    (system crates messageLog).Always UsersHeld history ↔
      (system crates messageLog).Meets (JoinsOnce crates) history := by
  refine (system crates messageLog).always_iff_meets Unique ?_ (unique_new messageLog) ?_ ?_ run
  · intro nick
    exact ⟨fun listed => absurd listed (AList.notMem_empty nick), fun ⟨_, held⟩ => nomatch held⟩
  · intro chat event next unique stepped
    exact unique.step (turns_of_step? stepped)
  · intro chat event next unique held stepped
    exact held.step unique (turns_of_step? stepped)

variable (crates) in
/--
The users are the nicks that are held; so there are none when no connection is
open, and a nick that nobody holds can be joined.
-/
structure NicksFree (chat : Chat κ) : Prop where
  held : chat.UsersHeld
  none : (∀ k handler, chat.connections k ≠ .opened handler) → ∀ nick, nick ∉ chat.shared.users
  again : ∀ k msg now join next, join? crates msg = some join →
    (∀ j, ¬ chat.Holds j join.joinNick) → chat.step? crates (.onMessage k msg now) = some next →
      next.Holds k join.joinNick

theorem nicksFree_iff {chat : Chat κ} : NicksFree crates chat ↔ chat.UsersHeld := by
  refine ⟨NicksFree.held, fun usersHeld => ⟨usersHeld, ?_, ?_⟩⟩
  · intro closed nick listed
    obtain ⟨k, held⟩ := (usersHeld nick).mp listed
    exact closed k _ held
  · intro k msg now join next joins nobody stepped
    have free : join.joinNick ∉ chat.shared.users := by
      intro listed
      obtain ⟨j, held⟩ := (usersHeld _).mp listed
      exact nobody j held
    cases turns_of_step? stepped with
    | kept unjoined holds users => exact absurd (unjoined k msg now join rfl joins) free
    | joined reads free own others users =>
        cases joins.symm.trans reads
        exact (own _).mpr rfl

/--
A nick is free again when its user leaves, at all times in a run, exactly if
every join that is accepted comes from a connection without a nick.
-/
theorem always_nicksFree_iff {messageLog : List LogMessage} {history : List (Event κ)}
    {chat : Chat κ} (run : (system crates messageLog).run? history = some chat) :
    (system crates messageLog).Always (NicksFree crates) history ↔
      (system crates messageLog).Meets (JoinsOnce crates) history := by
  rw [← always_usersHeld_iff run]
  exact System.always_congr _ fun _ _ _ => nicksFree_iff

/-- A connection joins under one nick, then under another, and leaves. -/
def joinTwice : List (Event Nat) :=
  [.onOpen 1 0, .onMessage 1 (.text annJoins) 0, .onMessage 1 (.text bobJoins) 0, .onClose 1 0]

/-- Nobody is connected any more, but the first nick is still taken. -/
theorem join_twice_keeps_nick : ∃ chat : Chat Nat,
    (system joinCrates []).run? joinTwice = some chat ∧
      (∀ k handler, chat.connections k ≠ .opened handler) ∧ "ann" ∈ chat.shared.users := by
  refine ⟨_, rfl, ?_, ?_⟩
  · intro k handler live
    by_cases here : k = 1
    · subst here
      cases live
    · simp [update, system, new, here] at live
  · exact (HashMap.mem_iff_lookup _ _).mpr ⟨(), rfl⟩

theorem always_nicksFree_iff_join_twice :
    ¬ (system joinCrates [] : System (Chat Nat) (Event Nat)).Meets (JoinsOnce joinCrates)
      joinTwice := by
  intro meets
  have free := System.property_of_always _
    ((@always_nicksFree_iff Nat _ joinCrates [] joinTwice _ rfl).mpr meets) rfl
  obtain ⟨k, held⟩ := (free.held "ann").mp ((HashMap.mem_iff_lookup _ _).mpr ⟨(), rfl⟩)
  by_cases here : k = 1
  · subst here
    cases held
  · simp [Holds, update, system, new, here] at held

end Chat

end RustDemo.WsChat
