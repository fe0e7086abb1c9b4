import RustDemo.Chat.Delivery

/-!
# Departures

A session that times out reports its departure twice, once when it notices and
once when it stops, and the requests of others can come between the two.  The
server announces it once.
-/

namespace RustDemo.Chat

open RustDemo.Collections RustDemo.Transition

variable {ρ : Type}

namespace ChatServer

theorem Departed.snoc {id : Nat} {history : List (Nat × Request ρ)} {event : Nat × Request ρ}
    (departed : Departed id history) (other : ∀ addr, event ≠ (id, .connect addr)) :
    Departed id (history ++ [event]) := by
  obtain ⟨first, draw, later, rfl, unused⟩ := departed
  refine ⟨first, draw, later ++ [event], by simp, ?_⟩
  intro addr listed
  rcases List.mem_append.mp listed with earlier | last
  · exact unused addr earlier
  · exact other addr (List.mem_singleton.mp last).symm

theorem registered_or_departed {history : List (Nat × Request ρ)} {server : ChatServer ρ}
    (run : (system ρ).run? history = some server) {id : Nat} {addr : ρ}
    (connected : (id, .connect addr) ∈ history) : id ∈ server.sessions ∨ Departed id history := by
  induction history using List.reverseRecOn generalizing server with
  | nil => cases connected
  | append_singleton earlier event ih =>
      obtain ⟨draw, request⟩ := event
      rw [(system ρ).run?_snoc] at run
      obtain ⟨middle, reached, stepped⟩ := Option.bind_eq_some_iff.mp run
      obtain ⟨out, handled, rfl⟩ := step?_eq_some.mp stepped
      rw [mem_sessions_of_handle handled]
      by_cases again : ∃ addr, (draw, request) = (id, Request.connect addr)
      · obtain ⟨addr, same⟩ := again
        cases same
        exact Or.inl (Or.inr ⟨rfl, addr, rfl⟩)
      · have other : ∀ addr, (draw, request) ≠ (id, .connect addr) :=
          fun addr same => again ⟨addr, same⟩
        have before : (id, .connect addr) ∈ earlier := by
          rcases List.mem_append.mp connected with before | last
          · exact before
          · exact absurd (List.mem_singleton.mp last).symm (other addr)
        rcases ih reached before with registered | departed
        · by_cases leaves : request = .disconnect id
          · subst leaves
            exact Or.inr ⟨earlier, draw, [], rfl, fun _ => List.not_mem_nil⟩
          · exact Or.inl (Or.inl ⟨registered, leaves⟩)
        · exact Or.inr (departed.snoc other)

theorem handleDisconnect_of_placed {server : ChatServer ρ} {id : Nat} {addr : ρ} {room : String}
    (placed : server.Placed id addr room) :
    (server.handleDisconnect id).sent =
      (server.handleDisconnect id).server.sendMessage room "Someone disconnected" 0 := by
  have registered : id ∈ server.sessions :=
    (HashMap.mem_iff_lookup _ _).mpr ⟨addr, placed.registered⟩
  unfold handleDisconnect
  rw [if_pos registered]
  have left := leaveRooms_eq_singleton placed.room_iff
  change (leaveRooms id server.rooms).2.flatMap _ = _
  rw [left, List.flatMap_singleton]

theorem handleDisconnect_of_not_registered {server : ChatServer ρ} {id : Nat}
    (absent : id ∉ server.sessions) : server.handleDisconnect id = ⟨server, [], .unit⟩ :=
  if_neg absent

theorem RecipientsDistinct.disconnect {server : ChatServer ρ} {id draw : Nat} {out : Outcome ρ}
    (distinct : server.RecipientsDistinct) (handled : server.handle draw (.disconnect id) = some out) :
    out.server.RecipientsDistinct := by
  have other : ∀ addr : ρ, Request.disconnect id ≠ .connect addr := nofun
  refine distinct.of_fewer fun session addr held => ?_
  rw [lookup_of_handle handled] at held
  exact lookup_of_lookupAfter other held

/--
What the departure of a session changes: its entry and its membership are gone,
everything else stays, and the others in its room are told once.
-/
structure Departs (server : ChatServer ρ) (id : Nat) (room : String) (out : Outcome ρ) : Prop where
  unregistered : out.server.sessions.lookup id = none
  left : ∀ other, ¬ out.server.Member id other
  others : ∀ other, other ≠ id →
    out.server.sessions.lookup other = server.sessions.lookup other ∧
      ∀ place, out.server.Member other place ↔ server.Member other place
  announced : DeliversOnce out.sent "Someone disconnected" fun addr => ∃ other, other ≠ 0 ∧
    out.server.Member other room ∧ out.server.sessions.lookup other = some addr

theorem departs_of_placed {server : ChatServer ρ} {id draw : Nat} {addr : ρ} {room : String}
    {out : Outcome ρ} (placed : server.Placed id addr room) (distinct : server.RecipientsDistinct)
    (handled : server.handle draw (.disconnect id) = some out) : server.Departs id room out where
  unregistered := by
    rw [lookup_of_handle handled]
    exact if_pos rfl
  left other inside := by
    have registered := (HashMap.mem_iff_lookup _ _).mpr ⟨addr, placed.registered⟩
    exact ((member_of_handle handled id other).mp inside).2 ⟨rfl, registered⟩
  others other apart := by
    constructor
    · rw [lookup_of_handle handled]
      exact if_neg apart
    · intro place
      rw [member_of_handle handled]
      simp [MemberAfter, apart]
  announced := by
    have same : server.handleDisconnect id = out := Option.some.inj handled
    have sent := handleDisconnect_of_placed placed
    rw [same] at sent
    rw [sent]
    exact sendMessage_deliversOnce (distinct.disconnect handled) room "Someone disconnected" 0

end ChatServer

namespace State

theorem mem_draws {id : Nat} {handled : List (Handled ρ)} (drawn : id ∈ draws handled) :
    ∃ addr, (id, .connect addr) ∈ requests handled := by
  obtain ⟨⟨sender, draw, request, sent⟩, there, chosen⟩ := List.mem_filterMap.mp drawn
  cases request with
  | connect addr =>
      cases chosen
      exact ⟨addr, List.mem_map.mpr ⟨_, there, rfl⟩⟩
  | _ => cases chosen

variable [DecidableEq ρ]

/--
A departure is announced once.  Let the server handle a report that the session
with a drawn id left.  If none was handled since the id was drawn, the id is
removed from the sessions and from the one room it is in, everything else stays,
and each session left in that room under a nonzero id gets one text.  Otherwise
nothing changes and nobody gets anything.
-/
theorem departure_announced_once {history : List (Label ρ)} {state next : State ρ} {a : ρ}
    {draw id : Nat} {sent : List (ρ × String)} (run : (system ρ).run? history = some state)
    (stepped : (system ρ).step? state (.serve a draw) = some next)
    (served : next.handled = state.handled ++ [⟨a, draw, .disconnect id, sent⟩])
    (drawn : id ∈ draws state.handled) (distinct : (draws state.handled).Nodup) :
    (¬ ChatServer.Departed id (requests state.handled) →
      ∃ addr room, state.server.Placed id addr room ∧
        next.server.sessions.lookup id = none ∧ (∀ other, ¬ next.server.Member id other) ∧
        (∀ other, other ≠ id →
          next.server.sessions.lookup other = state.server.sessions.lookup other ∧
            ∀ place, next.server.Member other place ↔ state.server.Member other place) ∧
        ChatServer.DeliversOnce sent "Someone disconnected" fun b => ∃ other, other ≠ 0 ∧
          next.server.Member other room ∧ next.server.sessions.lookup other = some b) ∧
      (ChatServer.Departed id (requests state.handled) →
        next.server = state.server ∧ sent = []) := by
  obtain ⟨stage, staged, orderly⟩ := exists_orderly run
  obtain ⟨out, after, handled, rfl, rest, -⟩ := progress_of_serve staged stepped served
  rw [rest]
  constructor
  · intro present
    obtain ⟨addr, connected⟩ := mem_draws drawn
    have registered : id ∈ state.server.sessions :=
      (ChatServer.registered_or_departed orderly.run connected).resolve_right present
    obtain ⟨owner, found⟩ := (HashMap.mem_iff_lookup _ _).mp registered
    obtain ⟨directory, tracks⟩ := orderly.tracks distinct
    obtain ⟨room, listed⟩ := tracks.listed_of_lookup found
    have placed := tracks.placed listed
    have departs := ChatServer.departs_of_placed placed orderly.recipientsDistinct handled
    exact ⟨owner, room, placed, departs.unregistered, departs.left, departs.others,
      departs.announced⟩
  · intro departed
    have absent := departed.not_registered orderly.run
    have outcome : state.server.handleDisconnect id = out := Option.some.inj handled
    rw [ChatServer.handleDisconnect_of_not_registered absent] at outcome
    rw [← outcome]
    exact ⟨rfl, rfl⟩

/-- A session reports its departure twice, and another one connects in between. -/
def timedOutTwice : List (Label Nat) :=
  [.session 1 (.start .tcp 0), .serve 1 5, .session 1 .reply,
    .session 1 (.interval (CLIENT_TIMEOUT + 1)), .session 1 .stopping, .serve 1 0,
    .session 2 (.start .ws 0), .serve 2 6]

theorem departure_announced_once_second_report :
    ∃ state next, (system Nat).run? timedOutTwice = some state ∧
      (system Nat).step? state (.serve 1 0) = some next ∧
      next.handled = state.handled ++ [⟨1, 0, .disconnect 5, []⟩] ∧
      next.server = state.server :=
  ⟨_, _, rfl, rfl, rfl, ((@departure_announced_once Nat _ timedOutTwice _ _ 1 0 5 [] rfl rfl rfl
    (by decide) (by decide)).2 ⟨[(5, .connect 1)], 0, [(6, .connect 2)], rfl, by simp⟩).1⟩

end State

end RustDemo.Chat
