import RustDemo.Chat.Delivery

/-!
# Announcements

`send_message` leaves out one id, and 0 stands for nobody there.  So a session
that was given the id 0 is left out of announcements that are meant for it, and
somebody who shares two rooms with a session is told twice when it leaves.
-/

namespace RustDemo.Chat

open RustDemo.Collections RustDemo.Transition

variable {ρ : Type}

namespace ChatServer

def OthersIn (server : ChatServer ρ) (id : Nat) (room : String) (addr : ρ) : Prop :=
  ∃ other, other ≠ id ∧ server.Member other room ∧ server.sessions.lookup other = some addr

/-- Every other session in the room that the id is in is told once that it left. -/
def TellsOthers (server : ChatServer ρ) (id : Nat) (sent : List (ρ × String)) : Prop :=
  ∃ room, server.Member id room ∧
    DeliversOnce sent "Someone disconnected" (server.OthersIn id room)

/-- The announcements that a request of a registered id calls for, and nothing else. -/
def Announces (server : ChatServer ρ) (sent : List (ρ × String)) : Request ρ → Prop
  | .connect _ => DeliversOnce sent "Someone joined" fun addr =>
      ∃ other, server.Member other "Main" ∧ server.sessions.lookup other = some addr
  | .disconnect id => id ∈ server.sessions → server.TellsOthers id sent
  | .join id name => id ∈ server.sessions → ∃ farewell welcome, sent = farewell ++ welcome ∧
      server.TellsOthers id farewell ∧
      DeliversOnce welcome "Someone connected" (server.OthersIn id name)
  | .message _ _ _ | .listRooms => True

/-- A room of the id in which nobody else has the id 0, and the only one shared with anybody. -/
def OneRoomShared (server : ChatServer ρ) (id : Nat) : Prop :=
  ∃ room, server.Member id room ∧
    (id ≠ 0 → 0 ∈ server.sessions → ¬ server.Member 0 room) ∧
    ∀ other elsewhere, other ≠ id → other ≠ 0 → other ∈ server.sessions →
      server.Member id elsewhere → server.Member other elsewhere → elsewhere = room

/-- Nobody who is to be told has the id 0, and nobody shares two rooms with the leaving id. -/
def EveryoneTold (server : ChatServer ρ) : Request ρ → Prop
  | .connect _ => 0 ∈ server.sessions → ¬ server.Member 0 "Main"
  | .disconnect id | .join id _ => id ∈ server.sessions → server.OneRoomShared id
  | .message _ _ _ | .listRooms => True

/-- The announcements of an id that has left all rooms. -/
def farewell (server : ChatServer ρ) (id : Nat) (sessions : HashMap Nat ρ) : List (ρ × String) :=
  (leaveRooms id server.rooms).2.flatMap fun room =>
    (ChatServer.mk sessions (leaveRooms id server.rooms).1).sendMessage room
      "Someone disconnected" 0

section Farewell

variable {server : ChatServer ρ} {id : Nat} {sessions : HashMap Nat ρ}

/-- Who a room is told about is who else is in it, apart from the id 0. -/
theorem mem_farewell_room (others : ∀ other, other ≠ id →
      sessions.lookup other = server.sessions.lookup other) (room : String) (addr : ρ)
    (text : String) :
    (addr, text) ∈ (ChatServer.mk sessions (leaveRooms id server.rooms).1).sendMessage room
        "Someone disconnected" 0 ↔
      text = "Someone disconnected" ∧ ∃ other, other ≠ 0 ∧ other ≠ id ∧ server.Member other room ∧
        server.sessions.lookup other = some addr := by
  rw [mem_sendMessage]
  refine and_congr_right fun _ => exists_congr fun other => ?_
  rw [member_leaveRooms]
  constructor
  · rintro ⟨nonzero, ⟨inside, apart⟩, registered⟩
    exact ⟨nonzero, apart, inside, (others other apart).symm.trans registered⟩
  · rintro ⟨nonzero, apart, inside, registered⟩
    exact ⟨nonzero, ⟨inside, apart⟩, (others other apart).trans registered⟩

theorem mem_farewell (others : ∀ other, other ≠ id →
      sessions.lookup other = server.sessions.lookup other) (addr : ρ) (text : String) :
    (addr, text) ∈ server.farewell id sessions ↔
      text = "Someone disconnected" ∧ ∃ room other, server.Member id room ∧ other ≠ 0 ∧
        other ≠ id ∧ server.Member other room ∧ server.sessions.lookup other = some addr := by
  simp only [farewell, List.mem_flatMap, mem_leaveRooms, mem_farewell_room others]
  constructor
  · rintro ⟨room, here, same, other, rest⟩
    exact ⟨same, room, other, here, rest⟩
  · rintro ⟨same, room, other, here, rest⟩
    exact ⟨room, here, same, other, rest⟩

/-- Nobody is told twice exactly if nobody else shares two rooms with the id. -/
theorem farewell_nodup_iff (distinct : server.RecipientsDistinct)
    (others : ∀ other, other ≠ id → sessions.lookup other = server.sessions.lookup other)
    (fewer : ∀ other addr, sessions.lookup other = some addr →
      server.sessions.lookup other = some addr) :
    (server.farewell id sessions).Nodup ↔ ∀ other room elsewhere, other ≠ id → other ≠ 0 →
      other ∈ server.sessions → server.Member id room → server.Member other room →
        server.Member id elsewhere → server.Member other elsewhere → elsewhere = room := by
  rw [farewell, List.nodup_flatMap]
  constructor
  · rintro ⟨-, apart⟩ other room elsewhere different nonzero registered here inside there beside
    obtain ⟨addr, found⟩ := (HashMap.mem_iff_lookup _ _).mp registered
    by_contra twice
    have symmetric : Std.Symm (Function.onFun List.Disjoint fun room =>
        (ChatServer.mk sessions (leaveRooms id server.rooms).1).sendMessage room
          "Someone disconnected" 0) := ⟨fun _ _ disjoint _ there here => disjoint here there⟩
    have disjoint := apart.forall ((mem_leaveRooms server id elsewhere).mpr there)
      ((mem_leaveRooms server id room).mpr here) twice
    exact disjoint
      ((mem_farewell_room others elsewhere addr _).mpr ⟨rfl, other, nonzero, different, beside, found⟩)
      ((mem_farewell_room others room addr _).mpr ⟨rfl, other, nonzero, different, inside, found⟩)
  · intro single
    refine ⟨fun room _ => sendMessage_nodup (distinct.of_fewer fewer) room _ 0, ?_⟩
    refine (leaveRooms_nodup id server.rooms).pairwise_of_forall_ne ?_
    rintro room here elsewhere there different ⟨addr, text⟩ told twice
    obtain ⟨-, other, nonzero, apart, inside, found⟩ :=
      (mem_farewell_room others room addr text).mp told
    obtain ⟨-, another, -, -, beside, same⟩ :=
      (mem_farewell_room others elsewhere addr text).mp twice
    cases distinct other another addr found same
    have registered := (HashMap.mem_iff_lookup server.sessions other).mpr ⟨addr, found⟩
    exact different (single other room elsewhere apart nonzero registered
      ((mem_leaveRooms server id room).mp here) inside
      ((mem_leaveRooms server id elsewhere).mp there) beside).symm

/-- The others are told rightly exactly if the id 0 and shared rooms do not come in between. -/
theorem tellsOthers_farewell_iff (distinct : server.RecipientsDistinct)
    (others : ∀ other, other ≠ id → sessions.lookup other = server.sessions.lookup other)
    (fewer : ∀ other addr, sessions.lookup other = some addr →
      server.sessions.lookup other = some addr) :
    server.TellsOthers id (server.farewell id sessions) ↔ server.OneRoomShared id := by
  constructor
  · rintro ⟨room, here, once, told⟩
    refine ⟨room, here, ?_, ?_⟩
    · intro different registered inside
      obtain ⟨addr, found⟩ := (HashMap.mem_iff_lookup _ _).mp registered
      have reached := (told addr "Someone disconnected").mpr
        ⟨rfl, 0, Ne.symm different, inside, found⟩
      obtain ⟨-, -, other, -, nonzero, -, -, same⟩ := (mem_farewell others addr _).mp reached
      exact nonzero (distinct other 0 addr same found)
    · intro other elsewhere different nonzero registered there beside
      obtain ⟨addr, found⟩ := (HashMap.mem_iff_lookup _ _).mp registered
      have reached := (mem_farewell others addr "Someone disconnected").mpr
        ⟨rfl, elsewhere, other, there, nonzero, different, beside, found⟩
      obtain ⟨-, another, -, inside, same⟩ := (told addr _).mp reached
      cases distinct other another addr found same
      exact (farewell_nodup_iff distinct others fewer).mp once other room elsewhere different
        nonzero registered here inside there beside
  · rintro ⟨room, here, zero, shared⟩
    refine ⟨room, here, ?_, ?_⟩
    · rw [farewell_nodup_iff distinct others fewer]
      intro other first second different nonzero registered inFirst besideFirst inSecond besideSecond
      rw [shared other first different nonzero registered inFirst besideFirst,
        shared other second different nonzero registered inSecond besideSecond]
    · intro addr text
      rw [mem_farewell others]
      refine and_congr_right fun _ => ?_
      constructor
      · rintro ⟨elsewhere, other, there, nonzero, different, beside, found⟩
        have registered := (HashMap.mem_iff_lookup server.sessions other).mpr ⟨addr, found⟩
        rw [shared other elsewhere different nonzero registered there beside] at beside
        exact ⟨other, different, beside, found⟩
      · rintro ⟨other, different, inside, found⟩
        have registered := (HashMap.mem_iff_lookup server.sessions other).mpr ⟨addr, found⟩
        refine ⟨room, other, here, ?_, different, inside, found⟩
        rintro rfl
        exact zero (Ne.symm different) registered inside

end Farewell

/-! ## What the handlers announce -/

section Handle

variable {server : ChatServer ρ}

theorem joined_deliversOnce_iff (distinct : server.RecipientsDistinct) :
    DeliversOnce (server.sendMessage "Main" "Someone joined" 0) "Someone joined" (fun addr =>
        ∃ other, server.Member other "Main" ∧ server.sessions.lookup other = some addr) ↔
      (0 ∈ server.sessions → ¬ server.Member 0 "Main") := by
  constructor
  · rintro ⟨-, told⟩ registered inside
    obtain ⟨addr, found⟩ := (HashMap.mem_iff_lookup _ _).mp registered
    have reached := (told addr "Someone joined").mpr ⟨rfl, 0, inside, found⟩
    obtain ⟨-, other, nonzero, -, same⟩ := (mem_sendMessage server _ _ _ _ _).mp reached
    exact nonzero (distinct other 0 addr same found)
  · intro zero
    refine ⟨sendMessage_nodup distinct _ _ _, fun addr text => ?_⟩
    rw [mem_sendMessage]
    refine and_congr_right fun _ => exists_congr fun other => ?_
    constructor
    · rintro ⟨-, rest⟩
      exact rest
    · rintro ⟨inside, found⟩
      refine ⟨?_, inside, found⟩
      rintro rfl
      exact zero ((HashMap.mem_iff_lookup _ _).mpr ⟨addr, found⟩) inside

theorem welcome_deliversOnce (distinct : server.RecipientsDistinct) (id : Nat) (name : String) :
    DeliversOnce ((server.vacated id name).sendMessage name "Someone connected" id)
      "Someone connected" (server.OthersIn id name) := by
  have unambiguous : (server.vacated id name).RecipientsDistinct := by
    refine distinct.of_fewer fun other addr found => ?_
    rwa [vacated_sessions] at found
  refine ⟨sendMessage_nodup unambiguous _ _ _, fun addr text => ?_⟩
  rw [mem_sendMessage, vacated_sessions]
  refine and_congr_right fun _ => exists_congr fun other => ?_
  rw [member_vacated]
  constructor
  · rintro ⟨different, ⟨inside, -⟩, found⟩
    exact ⟨different, inside, found⟩
  · rintro ⟨different, inside, found⟩
    exact ⟨different, ⟨inside, different⟩, found⟩

/-- A list is split into texts of the one kind and then of the other in one way. -/
theorem split_eq_of_texts {first second third fourth : List (ρ × String)} {text other : String}
    (different : other ≠ text) (same : first ++ second = third ++ fourth)
    (one : ∀ entry ∈ first, entry.2 = text) (two : ∀ entry ∈ second, entry.2 = other)
    (three : ∀ entry ∈ third, entry.2 = text) (four : ∀ entry ∈ fourth, entry.2 = other) :
    first = third := by
  have filtered := congrArg (List.filter fun entry => decide (entry.2 = text)) same
  have kept : ∀ sent : List (ρ × String), (∀ entry ∈ sent, entry.2 = text) →
      (sent.filter fun entry => decide (entry.2 = text)) = sent :=
    fun sent all => List.filter_eq_self.mpr fun entry listed => decide_eq_true (all entry listed)
  have dropped : ∀ sent : List (ρ × String), (∀ entry ∈ sent, entry.2 = other) →
      (sent.filter fun entry => decide (entry.2 = text)) = [] := by
    refine fun sent all => List.filter_eq_nil_iff.mpr fun entry listed => ?_
    rw [all entry listed]
    exact fun equal => different (of_decide_eq_true equal)
  rw [List.filter_append, List.filter_append, kept first one, dropped second two,
    kept third three, dropped fourth four, List.append_nil, List.append_nil] at filtered
  exact filtered

theorem DeliversOnce.text {sent : List (ρ × String)} {text : String} {chosen : ρ → Prop}
    (delivers : DeliversOnce sent text chosen) : ∀ entry ∈ sent, entry.2 = text :=
  fun entry listed => ((delivers.mem_iff entry.1 entry.2).mp listed).1

theorem disconnect_sent {id : Nat} (registered : id ∈ server.sessions) :
    (server.handleDisconnect id).sent = server.farewell id (server.sessions.erase id) := by
  unfold handleDisconnect
  rw [if_pos registered]
  rfl

theorem lookup_erase_of_ne {id other : Nat} (different : other ≠ id) :
    (server.sessions.erase id).lookup other = server.sessions.lookup other := by
  rw [HashMap.lookup_erase, if_neg different]

theorem registered_of_sent {draw : Nat} {request : Request ρ} {out : Outcome ρ}
    (handled : server.handle draw request = some out) {addr : ρ} {text : String}
    (sent : (addr, text) ∈ out.sent) : ∃ id, server.sessions.lookup id = some addr := by
  cases request with
  | connect target =>
      obtain ⟨main, -, rfl⟩ := handleConnect_eq_some handled
      obtain ⟨-, id, -, -, found⟩ := (mem_sendMessage server _ _ _ _ _).mp sent
      exact ⟨id, found⟩
  | disconnect gone =>
      cases handled
      change (addr, text) ∈ (server.handleDisconnect gone).sent at sent
      by_cases registered : gone ∈ server.sessions
      · rw [disconnect_sent registered] at sent
        obtain ⟨-, -, id, -, -, -, -, found⟩ := (mem_farewell (fun _ => lookup_erase_of_ne) _ _).mp sent
        exact ⟨id, found⟩
      · unfold handleDisconnect at sent
        rw [if_neg registered] at sent
        cases sent
  | message sender msg room =>
      cases handled
      obtain ⟨-, id, -, -, found⟩ := (mem_sendMessage server _ _ _ _ _).mp sent
      exact ⟨id, found⟩
  | listRooms =>
      cases handled
      cases sent
  | join joiner name =>
      obtain ⟨members, -, joined⟩ := server.handleJoin_eq joiner name
      cases joined.symm.trans handled
      rcases List.mem_append.mp sent with farewell | welcome
      · obtain ⟨-, -, id, -, -, -, -, found⟩ :=
          (mem_farewell (fun _ _ => rfl) addr text).mp farewell
        exact ⟨id, found⟩
      · obtain ⟨-, id, -, -, found⟩ := (mem_sendMessage _ _ _ _ _ _).mp welcome
        rw [vacated_sessions] at found
        exact ⟨id, found⟩

/-- A handler announces what it should exactly if everyone can be told. -/
theorem announces_iff (distinct : server.RecipientsDistinct) {draw : Nat} {request : Request ρ}
    {out : Outcome ρ} (handled : server.handle draw request = some out) :
    server.Announces out.sent request ↔ server.EveryoneTold request := by
  cases request with
  | connect addr =>
      obtain ⟨main, -, rfl⟩ := handleConnect_eq_some handled
      exact joined_deliversOnce_iff distinct
  | disconnect id =>
      cases handled
      refine forall_congr' fun registered => ?_
      rw [disconnect_sent registered]
      refine tellsOthers_farewell_iff distinct (fun _ => lookup_erase_of_ne) fun other addr found => ?_
      rw [HashMap.lookup_erase] at found
      split at found
      · cases found
      · exact found
  | message id msg room => exact Iff.rfl
  | listRooms => exact Iff.rfl
  | join id name =>
      obtain ⟨members, -, joined⟩ := server.handleJoin_eq id name
      cases joined.symm.trans handled
      refine forall_congr' fun registered => ?_
      have welcomed := welcome_deliversOnce distinct id name
      have told : server.TellsOthers id (server.farewell id server.sessions) ↔
          server.OneRoomShared id :=
        tellsOthers_farewell_iff distinct (fun _ _ => rfl) fun _ _ found => found
      rw [← told]
      constructor
      · rintro ⟨farewell, welcome, same, tells, delivers⟩
        obtain ⟨room, here, once⟩ := tells
        have texts : ∀ entry ∈ server.farewell id server.sessions,
            entry.2 = "Someone disconnected" :=
          fun entry listed => ((mem_farewell (fun _ _ => rfl) entry.1 entry.2).mp listed).1
        have only : server.farewell id server.sessions = farewell :=
          split_eq_of_texts (by decide) same texts welcomed.text once.text delivers.text
        rw [only]
        exact ⟨room, here, once⟩
      · intro tells
        exact ⟨_, _, rfl, tells, welcomed⟩

end Handle

end ChatServer

namespace State

variable [DecidableEq ρ]

/--
System announcements.  Whatever numbers were drawn, the next request that the
server handles is announced to exactly the sessions it concerns, each once,
exactly if none of them has the id 0 and none of them shares two rooms with the
one that leaves.
-/
theorem announcements_iff {history : List (Label ρ)} {state next : State ρ} {a : ρ} {draw : Nat}
    {request : Request ρ} {sent : List (ρ × String)}
    (run : (system ρ).run? history = some state)
    (stepped : (system ρ).step? state (.serve a draw) = some next)
    (served : next.handled = state.handled ++ [⟨a, draw, request, sent⟩]) :
    state.server.Announces sent request ↔ state.server.EveryoneTold request := by
  obtain ⟨stage, staged, orderly⟩ := exists_orderly run
  obtain ⟨out, -, handled, rfl, -, -⟩ := progress_of_serve staged stepped served
  exact ChatServer.announces_iff orderly.recipientsDistinct handled

/-- The first session is given the id 0, the second one is about to be connected. -/
def zeroDrawn : List (Label Nat) :=
  [.session 1 (.start .tcp 0), .serve 1 0, .session 2 (.start .tcp 0)]

/-- Nobody tells the first session that the second one joined. -/
theorem zero_drawn_not_announced :
    ∃ state next, (system Nat).run? zeroDrawn = some state ∧
      (system Nat).step? state (.serve 2 5) = some next ∧
      next.handled = state.handled ++ [⟨2, 5, .connect 2, []⟩] ∧
      ¬ state.server.Announces [] (.connect 2) := by
  refine ⟨_, _, rfl, rfl, rfl, fun announces => ?_⟩
  have missing := (announces.mem_iff 1 "Someone joined").mpr ⟨rfl, 0, by decide, rfl⟩
  cases missing

theorem announcements_iff_zero_drawn :
    ∃ state, (system Nat).run? zeroDrawn = some state ∧
      (state.server.Announces [] (.connect 2) ↔ state.server.EveryoneTold (.connect 2)) :=
  ⟨_, rfl, @announcements_iff Nat _ zeroDrawn _ _ 2 5 (.connect 2) [] rfl rfl rfl⟩

end State

end RustDemo.Chat
