import RustDemo.Collections.HashMap
import RustDemo.Transition.System

/-!
# The chat server actor

`ChatServer` owns two maps that are updated by different handlers: `sessions`
from session id to recipient, and `rooms` from room name to the ids in it.  The
crates `chat`, `actor_chat` and `actor_ws_tcp_chat` share these handlers and
differ only in the type of a recipient, which is the parameter `ρ` here.  The
value drawn by the random generator is an argument of the step.
-/

namespace RustDemo.Chat

open RustDemo.Collections RustDemo.Transition

/-- A message in the mailbox of the server. -/
inductive Request (ρ : Type) where
  | connect (addr : ρ)
  | disconnect (id : Nat)
  | message (id : Nat) (msg : String) (room : String)
  | listRooms
  | join (id : Nat) (name : String)
  deriving DecidableEq, Repr

/-- What the sender of a request gets back. -/
inductive Reply where
  | unit
  | id (id : Nat)
  | rooms (names : List String)
  deriving DecidableEq, Repr

structure ChatServer (ρ : Type) where
  sessions : HashMap Nat ρ
  rooms : HashMap String (HashSet Nat)

/-- The state after a handler, the messages it sent to sessions and its result. -/
structure Outcome (ρ : Type) where
  server : ChatServer ρ
  sent : List (ρ × String)
  reply : Reply

namespace ChatServer

variable {ρ : Type}

/-- The server starts with nobody registered and one empty room. -/
def default : ChatServer ρ where
  sessions := ∅
  rooms := AList.singleton "Main" ∅

/-- Send a text to everybody in a room but the session with id `skip_id`. -/
def sendMessage (server : ChatServer ρ) (room message : String) (skip_id : Nat) :
    List (ρ × String) :=
  match server.rooms.lookup room with
  | none => []
  | some sessions =>
      sessions.keys.filterMap fun id =>
        if id ≠ skip_id then
          (server.sessions.lookup id).map fun addr => (addr, message)
        else none

/-- The loop that removes an id from every room and collects the rooms it was in. -/
def leaveRooms (id : Nat) (rooms : HashMap String (HashSet Nat)) :
    HashMap String (HashSet Nat) × List String :=
  (HashMap.mapValues (fun _ sessions => sessions.erase id) rooms,
    HashMap.keysWhere (fun _ sessions => id ∈ sessions) rooms)

/-- `Handler<Connect>`; `none` is the panic of `unwrap` when "Main" is missing. -/
def handleConnect (server : ChatServer ρ) (addr : ρ) (draw : Nat) : Option (Outcome ρ) :=
  let sent := server.sendMessage "Main" "Someone joined" 0
  let sessions := server.sessions.insert draw addr
  match server.rooms.lookup "Main" with
  | none => none
  | some main =>
      some ⟨⟨sessions, server.rooms.insert "Main" (main.insert draw ())⟩, sent, .id draw⟩

/-- `Handler<Disconnect>`: rooms are cleaned only if the id was registered. -/
def handleDisconnect (server : ChatServer ρ) (id : Nat) : Outcome ρ :=
  if id ∈ server.sessions then
    let (rooms, left) := leaveRooms id server.rooms
    let server' : ChatServer ρ := ⟨server.sessions.erase id, rooms⟩
    ⟨server', left.flatMap fun room => server'.sendMessage room "Someone disconnected" 0, .unit⟩
  else ⟨server, [], .unit⟩

/-- `Handler<Message>` -/
def handleMessage (server : ChatServer ρ) (id : Nat) (msg room : String) : Outcome ρ :=
  ⟨server, server.sendMessage room msg id, .unit⟩

/-- `Handler<ListRooms>` -/
def handleListRooms (server : ChatServer ρ) : Outcome ρ :=
  ⟨server, [], .rooms server.rooms.keys⟩

/-- `Handler<Join>`; `none` is the panic of the last `unwrap`. -/
def handleJoin (server : ChatServer ρ) (id : Nat) (name : String) : Option (Outcome ρ) :=
  let (rooms, left) := leaveRooms id server.rooms
  let emptied : ChatServer ρ := ⟨server.sessions, rooms⟩
  let farewell := left.flatMap fun room => emptied.sendMessage room "Someone disconnected" 0
  let opened : ChatServer ρ :=
    if emptied.rooms.lookup name = none then ⟨emptied.sessions, emptied.rooms.insert name ∅⟩
    else emptied
  let welcome := opened.sendMessage name "Someone connected" id
  match opened.rooms.lookup name with
  | none => none
  | some members =>
      some ⟨⟨opened.sessions, opened.rooms.insert name (members.insert id ())⟩,
        farewell ++ welcome, .unit⟩

/-- Handle the next message of the mailbox; a `Connect` uses the drawn number. -/
def handle (server : ChatServer ρ) (draw : Nat) : Request ρ → Option (Outcome ρ)
  | .connect addr => server.handleConnect addr draw
  | .disconnect id => some (server.handleDisconnect id)
  | .message id msg room => some (server.handleMessage id msg room)
  | .listRooms => some server.handleListRooms
  | .join id name => server.handleJoin id name

def system (ρ : Type) : System (ChatServer ρ) (Nat × Request ρ) where
  init := default
  step? server event := (server.handle event.1 event.2).map Outcome.server

theorem step?_eq_some {server next : ChatServer ρ} {event : Nat × Request ρ} :
    (system ρ).step? server event = some next ↔
      ∃ out, server.handle event.1 event.2 = some out ∧ out.server = next :=
  Option.map_eq_some_iff

def members (server : ChatServer ρ) (room : String) : HashSet Nat :=
  (server.rooms.lookup room).getD ∅

def Member (server : ChatServer ρ) (id : Nat) (room : String) : Prop :=
  id ∈ server.members room

instance (server : ChatServer ρ) (id : Nat) (room : String) : Decidable (server.Member id room) :=
  inferInstanceAs (Decidable (id ∈ server.members room))

/-- The id belongs to the recipient and is in this room and no other. -/
structure Placed (server : ChatServer ρ) (id : Nat) (addr : ρ) (room : String) : Prop where
  registered : server.sessions.lookup id = some addr
  room_iff : ∀ other, server.Member id other ↔ other = room

theorem not_member_of_lookup_none {server : ChatServer ρ} {room : String}
    (missing : server.rooms.lookup room = none) (id : Nat) : ¬ server.Member id room := by
  simp [Member, members, missing]

theorem member_iff_of_lookup {server : ChatServer ρ} {room : String} {sessions : HashSet Nat}
    (found : server.rooms.lookup room = some sessions) (id : Nat) :
    server.Member id room ↔ id ∈ sessions := by
  simp [Member, members, found]

@[simp] theorem default_lookup (id : Nat) : (default : ChatServer ρ).sessions.lookup id = none := rfl

@[simp] theorem default_not_member (id : Nat) (room : String) :
    ¬ (default : ChatServer ρ).Member id room := by
  unfold Member members default
  rw [HashMap.lookup_singleton]
  split <;> simp

theorem member_leaveRooms (server : ChatServer ρ) (sessions : HashMap Nat ρ)
    (id other : Nat) (room : String) :
    (ChatServer.mk sessions (leaveRooms id server.rooms).1).Member other room ↔
      server.Member other room ∧ other ≠ id := by
  unfold Member members leaveRooms
  rw [HashMap.lookup_mapValues]
  cases server.rooms.lookup room with
  | none => simp
  | some sessions => simp [and_comm]

theorem mem_leaveRooms (server : ChatServer ρ) (id : Nat) (room : String) :
    room ∈ (leaveRooms id server.rooms).2 ↔ server.Member id room := by
  unfold Member members leaveRooms
  rw [HashMap.mem_keysWhere]
  cases server.rooms.lookup room with
  | none => simp
  | some sessions => simp

theorem leaveRooms_nodup (id : Nat) (rooms : HashMap String (HashSet Nat)) :
    (leaveRooms id rooms).2.Nodup :=
  HashMap.keysWhere_nodup (fun _ sessions => decide (id ∈ sessions)) rooms

theorem leaveRooms_eq_singleton {server : ChatServer ρ} {id : Nat} {room : String}
    (only : ∀ other, server.Member id other ↔ other = room) :
    (leaveRooms id server.rooms).2 = [room] := by
  have same : (leaveRooms id server.rooms).2.Perm [room] :=
    (List.perm_ext_iff_of_nodup (leaveRooms_nodup id server.rooms)
      (List.nodup_singleton room)).mpr fun other => by
        rw [mem_leaveRooms, only, List.mem_singleton]
  exact List.perm_singleton.mp same

theorem member_insert {server : ChatServer ρ} {name : String} {members : HashSet Nat}
    (found : server.rooms.lookup name = some members) (sessions : HashMap Nat ρ)
    (id other : Nat) (room : String) :
    (ChatServer.mk sessions (server.rooms.insert name (members.insert id ()))).Member other room ↔
      server.Member other room ∨ other = id ∧ room = name := by
  unfold Member ChatServer.members
  rw [HashMap.lookup_insert]
  by_cases same : room = name
  · subst same
    simp [found, or_comm]
  · simp [same]

theorem member_open (server : ChatServer ρ) (name : String) (id : Nat) (room : String)
    (missing : server.rooms.lookup name = none) :
    (ChatServer.mk server.sessions (server.rooms.insert name ∅)).Member id room ↔
      server.Member id room := by
  unfold Member members
  rw [HashMap.lookup_insert]
  by_cases same : room = name
  · subst same
    simp [missing]
  · simp [same]

/-! ## What each handler does -/

theorem handleConnect_eq_some {server : ChatServer ρ} {addr : ρ} {draw : Nat} {out : Outcome ρ}
    (handled : server.handleConnect addr draw = some out) :
    ∃ main, server.rooms.lookup "Main" = some main ∧
      out = ⟨⟨server.sessions.insert draw addr, server.rooms.insert "Main" (main.insert draw ())⟩,
        server.sendMessage "Main" "Someone joined" 0, .id draw⟩ := by
  unfold handleConnect at handled
  cases found : server.rooms.lookup "Main" with
  | none =>
      rw [found] at handled
      cases handled
  | some main =>
      rw [found] at handled
      exact ⟨main, rfl, (Option.some.inj handled).symm⟩

/-- The server between the two halves of a join: the id is in no room, the room exists. -/
def vacated (server : ChatServer ρ) (id : Nat) (name : String) : ChatServer ρ :=
  if AList.lookup name (leaveRooms id server.rooms).1 = none then
    ⟨server.sessions, (leaveRooms id server.rooms).1.insert name ∅⟩
  else ⟨server.sessions, (leaveRooms id server.rooms).1⟩

theorem vacated_sessions (server : ChatServer ρ) (id : Nat) (name : String) :
    (server.vacated id name).sessions = server.sessions := by
  unfold vacated
  split <;> rfl

theorem member_vacated (server : ChatServer ρ) (id other : Nat) (name room : String) :
    (server.vacated id name).Member other room ↔ server.Member other room ∧ other ≠ id := by
  unfold vacated
  split
  · rename_i missing
    rw [member_open ⟨server.sessions, (leaveRooms id server.rooms).1⟩ name other room missing]
    exact member_leaveRooms server server.sessions id other room
  · exact member_leaveRooms server server.sessions id other room

theorem mem_rooms_vacated (server : ChatServer ρ) (id : Nat) (name room : String) :
    room ∈ (server.vacated id name).rooms ↔ room = name ∨ room ∈ server.rooms := by
  have kept : room ∈ (leaveRooms id server.rooms).1 ↔ room ∈ server.rooms := by
    unfold leaveRooms
    rw [AList.mem_keys, HashMap.keys_mapValues, AList.mem_keys]
  unfold vacated
  split
  · rw [AList.mem_insert, kept]
  · rename_i present
    rw [kept]
    constructor
    · exact Or.inr
    · rintro (same | listed)
      · rw [← kept, same]
        exact (HashMap.mem_iff_lookup _ name).mpr (Option.ne_none_iff_exists'.mp present)
      · exact listed

/-- A join never panics: its last `unwrap` meets the room that was just created or found. -/
theorem handleJoin_eq (server : ChatServer ρ) (id : Nat) (name : String) :
    ∃ members, (server.vacated id name).rooms.lookup name = some members ∧
      server.handleJoin id name =
        some ⟨⟨server.sessions, (server.vacated id name).rooms.insert name (members.insert id ())⟩,
          ((leaveRooms id server.rooms).2.flatMap fun room =>
            (ChatServer.mk server.sessions (leaveRooms id server.rooms).1).sendMessage room
              "Someone disconnected" 0) ++
            (server.vacated id name).sendMessage name "Someone connected" id, .unit⟩ := by
  have present : name ∈ (server.vacated id name).rooms :=
    (mem_rooms_vacated server id name name).mpr (Or.inl rfl)
  obtain ⟨members, found⟩ := (HashMap.mem_iff_lookup _ name).mp present
  refine ⟨members, found, ?_⟩
  have unfolded : server.handleJoin id name =
      match (server.vacated id name).rooms.lookup name with
      | none => none
      | some members => some ⟨⟨(server.vacated id name).sessions,
          (server.vacated id name).rooms.insert name (members.insert id ())⟩,
          ((leaveRooms id server.rooms).2.flatMap fun room =>
            (ChatServer.mk server.sessions (leaveRooms id server.rooms).1).sendMessage room
              "Someone disconnected" 0) ++
            (server.vacated id name).sendMessage name "Someone connected" id, .unit⟩ := rfl
  rw [unfolded, found, vacated_sessions]

def lookupAfter (server : ChatServer ρ) (draw : Nat) (id : Nat) : Request ρ → Option ρ
  | .connect addr => if id = draw then some addr else server.sessions.lookup id
  | .disconnect gone => if id = gone then none else server.sessions.lookup id
  | .message _ _ _ | .listRooms | .join _ _ => server.sessions.lookup id

def MemberAfter (server : ChatServer ρ) (draw : Nat) (id : Nat) (room : String) :
    Request ρ → Prop
  | .connect _ => server.Member id room ∨ id = draw ∧ room = "Main"
  | .disconnect gone => server.Member id room ∧ ¬(id = gone ∧ gone ∈ server.sessions)
  | .message _ _ _ | .listRooms => server.Member id room
  | .join joiner name => server.Member id room ∧ id ≠ joiner ∨ id = joiner ∧ room = name

def Concerns (draw id : Nat) : Request ρ → Prop
  | .connect _ => draw = id
  | .disconnect gone => gone = id
  | .join joiner _ => joiner = id
  | .message _ _ _ | .listRooms => False

theorem lookupAfter_of_not_concerns (server : ChatServer ρ) {draw id : Nat} {request : Request ρ}
    (apart : ¬ Concerns draw id request) :
    server.lookupAfter draw id request = server.sessions.lookup id := by
  cases request with
  | connect addr => exact if_neg (Ne.symm apart)
  | disconnect gone => exact if_neg (Ne.symm apart)
  | _ => rfl

theorem memberAfter_of_not_concerns (server : ChatServer ρ) {draw id : Nat} {request : Request ρ}
    (apart : ¬ Concerns draw id request) (room : String) :
    server.MemberAfter draw id room request ↔ server.Member id room := by
  cases request with
  | connect addr => simp [MemberAfter, Ne.symm apart]
  | disconnect gone => simp [MemberAfter, Ne.symm apart]
  | join joiner name => simp [MemberAfter, Ne.symm apart]
  | _ => rfl

def replyAfter (server : ChatServer ρ) (draw : Nat) : Request ρ → Reply
  | .connect _ => .id draw
  | .listRooms => .rooms server.rooms.keys
  | .disconnect _ | .message _ _ _ | .join _ _ => .unit

theorem lookup_of_lookupAfter {server : ChatServer ρ} {draw id : Nat} {request : Request ρ}
    {addr : ρ} (other : ∀ addr, request ≠ .connect addr)
    (registered : server.lookupAfter draw id request = some addr) :
    server.sessions.lookup id = some addr := by
  cases request with
  | connect addr => exact absurd rfl (other addr)
  | disconnect gone =>
      rw [lookupAfter] at registered
      split at registered
      · cases registered
      · exact registered
  | _ => exact registered

theorem member_of_memberAfter {server : ChatServer ρ} {draw id : Nat} {room : String}
    {request : Request ρ} (other : ∀ addr, request ≠ .connect addr)
    (inside : server.MemberAfter draw id room request) :
    server.Member id room ∨ request = .join id room := by
  cases request with
  | connect addr => exact absurd rfl (other addr)
  | disconnect gone => exact Or.inl inside.1
  | join joiner name =>
      rcases inside with ⟨before, -⟩ | ⟨rfl, rfl⟩
      · exact Or.inl before
      · exact Or.inr rfl
  | _ => exact Or.inl inside

section Handle

variable {server : ChatServer ρ} {draw : Nat} {request : Request ρ} {out : Outcome ρ}

theorem lookup_of_handle (handled : server.handle draw request = some out) (id : Nat) :
    out.server.sessions.lookup id = server.lookupAfter draw id request := by
  cases request with
  | connect addr =>
      obtain ⟨main, _, rfl⟩ := handleConnect_eq_some handled
      exact HashMap.lookup_insert server.sessions draw id addr
  | disconnect gone =>
      cases handled
      change (server.handleDisconnect gone).server.sessions.lookup id =
        if id = gone then none else server.sessions.lookup id
      unfold handleDisconnect
      by_cases registered : gone ∈ server.sessions
      · rw [if_pos registered]
        exact HashMap.lookup_erase server.sessions gone id
      · rw [if_neg registered]
        split
        · rename_i same
          rw [same]
          exact AList.lookup_eq_none.mpr registered
        · rfl
  | message sender msg room => cases handled; rfl
  | listRooms => cases handled; rfl
  | join joiner name =>
      obtain ⟨members, _, joined⟩ := server.handleJoin_eq joiner name
      cases joined.symm.trans handled
      rfl

theorem member_of_handle (handled : server.handle draw request = some out) (id : Nat)
    (room : String) : out.server.Member id room ↔ server.MemberAfter draw id room request := by
  cases request with
  | connect addr =>
      obtain ⟨main, found, rfl⟩ := handleConnect_eq_some handled
      exact member_insert found _ draw id room
  | disconnect gone =>
      cases handled
      change (server.handleDisconnect gone).server.Member id room ↔
        server.Member id room ∧ ¬(id = gone ∧ gone ∈ server.sessions)
      unfold handleDisconnect
      by_cases registered : gone ∈ server.sessions
      · rw [if_pos registered]
        simpa [registered] using
          member_leaveRooms server (server.sessions.erase gone) gone id room
      · rw [if_neg registered]
        simp [registered]
  | message sender msg name => cases handled; rfl
  | listRooms => cases handled; rfl
  | join joiner name =>
      obtain ⟨members, found, joined⟩ := server.handleJoin_eq joiner name
      cases joined.symm.trans handled
      have grown := member_insert found server.sessions joiner id room
      rw [member_vacated] at grown
      exact grown

theorem mem_rooms_of_handle (handled : server.handle draw request = some out) (room : String) :
    room ∈ out.server.rooms ↔ room ∈ server.rooms ∨ ∃ id, request = .join id room := by
  cases request with
  | connect addr =>
      obtain ⟨main, found, rfl⟩ := handleConnect_eq_some handled
      have present : "Main" ∈ server.rooms := (HashMap.mem_iff_lookup _ _).mpr ⟨main, found⟩
      simp only [AList.mem_insert, reduceCtorEq, exists_false, or_false]
      constructor
      · rintro (rfl | listed)
        · exact present
        · exact listed
      · exact Or.inr
  | disconnect gone =>
      cases handled
      have kept : room ∈ (server.handleDisconnect gone).server.rooms ↔ room ∈ server.rooms := by
        unfold handleDisconnect
        split
        · change room ∈ (leaveRooms gone server.rooms).1 ↔ room ∈ server.rooms
          unfold leaveRooms
          rw [AList.mem_keys, HashMap.keys_mapValues, AList.mem_keys]
        · rfl
      simpa using kept
  | message sender msg name =>
      cases handled
      simp [handleMessage]
  | listRooms =>
      cases handled
      simp [handleListRooms]
  | join joiner name =>
      obtain ⟨members, found, joined⟩ := server.handleJoin_eq joiner name
      cases joined.symm.trans handled
      rw [AList.mem_insert, mem_rooms_vacated]
      simp only [Request.join.injEq, exists_and_right, exists_eq', true_and]
      tauto

theorem Placed.handle {id : Nat} {addr : ρ} {room : String} (placed : server.Placed id addr room)
    (handled : server.handle draw request = some out) (apart : ¬ Concerns draw id request) :
    out.server.Placed id addr room where
  registered := by
    rw [lookup_of_handle handled, server.lookupAfter_of_not_concerns apart]
    exact placed.registered
  room_iff other := by
    rw [member_of_handle handled, server.memberAfter_of_not_concerns apart]
    exact placed.room_iff other

theorem reply_of_handle (handled : server.handle draw request = some out) :
    out.reply = server.replyAfter draw request := by
  cases request with
  | connect addr =>
      obtain ⟨main, _, rfl⟩ := handleConnect_eq_some handled
      rfl
  | disconnect gone =>
      cases handled
      change (server.handleDisconnect gone).reply = .unit
      unfold handleDisconnect
      split <;> rfl
  | message sender msg room => cases handled; rfl
  | listRooms => cases handled; rfl
  | join joiner name =>
      obtain ⟨members, _, joined⟩ := server.handleJoin_eq joiner name
      cases joined.symm.trans handled
      rfl

theorem handle_isSome (main : "Main" ∈ server.rooms) (draw : Nat) (request : Request ρ) :
    ∃ out, server.handle draw request = some out := by
  cases request with
  | connect addr =>
      obtain ⟨members, found⟩ := (HashMap.mem_iff_lookup _ _).mp main
      refine ⟨⟨⟨server.sessions.insert draw addr,
        server.rooms.insert "Main" (members.insert draw ())⟩,
        server.sendMessage "Main" "Someone joined" 0, .id draw⟩, ?_⟩
      change server.handleConnect addr draw = _
      unfold handleConnect
      rw [found]
  | disconnect gone => exact ⟨_, rfl⟩
  | message sender msg room => exact ⟨_, rfl⟩
  | listRooms => exact ⟨_, rfl⟩
  | join joiner name =>
      obtain ⟨members, _, joined⟩ := server.handleJoin_eq joiner name
      exact ⟨_, joined⟩

end Handle

theorem main_mem_rooms {history : List (Nat × Request ρ)} {server : ChatServer ρ}
    (run : (system ρ).run? history = some server) : "Main" ∈ server.rooms := by
  refine (system ρ).invariant (fun server => "Main" ∈ server.rooms) ?_ ?_ run
  · change "Main" ∈ (AList.singleton "Main" ∅ : HashMap String (HashSet Nat))
    rw [← AList.insert_empty, AList.mem_insert]
    exact Or.inl rfl
  · intro server event next main stepped
    obtain ⟨out, handled, rfl⟩ := step?_eq_some.mp stepped
    exact (mem_rooms_of_handle handled "Main").mpr (Or.inl main)

theorem run?_isSome (history : List (Nat × Request ρ)) :
    ∃ server, (system ρ).run? history = some server := by
  induction history using List.reverseRecOn with
  | nil => exact ⟨default, rfl⟩
  | append_singleton earlier event ih =>
      obtain ⟨server, run⟩ := ih
      obtain ⟨out, handled⟩ := handle_isSome (main_mem_rooms run) event.1 event.2
      refine ⟨out.server, ?_⟩
      rw [(system ρ).run?_snoc, run]
      exact step?_eq_some.mpr ⟨out, handled, rfl⟩

theorem mem_sendMessage (server : ChatServer ρ) (room message : String) (skip_id : Nat)
    (addr : ρ) (text : String) :
    (addr, text) ∈ server.sendMessage room message skip_id ↔
      text = message ∧ ∃ id, id ≠ skip_id ∧ server.Member id room ∧
        server.sessions.lookup id = some addr := by
  unfold sendMessage
  cases found : server.rooms.lookup room with
  | none =>
      have nobody : ∀ id, ¬ server.Member id room := not_member_of_lookup_none found
      simp [nobody]
  | some sessions =>
      simp only [List.mem_filterMap, member_iff_of_lookup found]
      constructor
      · rintro ⟨id, listed, chosen⟩
        split at chosen
        · rename_i other
          obtain ⟨target, registered, same⟩ := Option.map_eq_some_iff.mp chosen
          cases same
          exact ⟨rfl, id, other, listed, registered⟩
        · cases chosen
      · rintro ⟨rfl, id, other, listed, registered⟩
        refine ⟨id, listed, ?_⟩
        rw [if_pos other, registered]
        rfl

/-- No two ids are registered for one recipient. -/
def RecipientsDistinct (server : ChatServer ρ) : Prop :=
  ∀ id other addr, server.sessions.lookup id = some addr →
    server.sessions.lookup other = some addr → id = other

theorem RecipientsDistinct.of_fewer {server after : ChatServer ρ}
    (distinct : server.RecipientsDistinct)
    (fewer : ∀ id addr, after.sessions.lookup id = some addr →
      server.sessions.lookup id = some addr) : after.RecipientsDistinct :=
  fun id other addr here there =>
    distinct id other addr (fewer id addr here) (fewer other addr there)

theorem sendMessage_nodup {server : ChatServer ρ} (distinct : server.RecipientsDistinct)
    (room message : String) (skip_id : Nat) :
    (server.sendMessage room message skip_id).Nodup := by
  unfold sendMessage
  cases server.rooms.lookup room with
  | none => exact List.nodup_nil
  | some sessions =>
      refine sessions.keys_nodup.filterMap fun id other chosen first second => ?_
      rw [Option.mem_def] at first second
      split at first
      · split at second
        · obtain ⟨addr, registered, rfl⟩ := Option.map_eq_some_iff.mp first
          obtain ⟨target, otherRegistered, same⟩ := Option.map_eq_some_iff.mp second
          cases same
          exact distinct id other addr registered otherRegistered
        · cases second
      · cases first

/-- Exactly one copy of the text for each chosen recipient, and nothing else. -/
structure DeliversOnce (sent : List (ρ × String)) (text : String) (chosen : ρ → Prop) : Prop where
  nodup : sent.Nodup
  mem_iff : ∀ addr other, (addr, other) ∈ sent ↔ other = text ∧ chosen addr

theorem sendMessage_deliversOnce {server : ChatServer ρ} (distinct : server.RecipientsDistinct)
    (room message : String) (skip_id : Nat) :
    DeliversOnce (server.sendMessage room message skip_id) message fun addr =>
      ∃ id, id ≠ skip_id ∧ server.Member id room ∧ server.sessions.lookup id = some addr where
  nodup := sendMessage_nodup distinct room message skip_id
  mem_iff := server.mem_sendMessage room message skip_id

end ChatServer

end RustDemo.Chat
