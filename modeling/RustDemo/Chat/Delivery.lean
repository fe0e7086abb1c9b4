import RustDemo.Chat.Interleaving

/-!
# Delivery within a room

A session and the server each keep the name of the room, and change it at
different times.  When a message is handled the two agree.
-/

namespace RustDemo.Chat

open RustDemo.Collections RustDemo.Transition

variable {ρ : Type}

theorem Moves.seat_of_seat {input : Input} {stage next : Stage} {seat : Nat × String}
    (moves : Moves input stage next) (seated : next.seat = some seat) :
    stage.seat = some seat := by
  cases moves with
  | stay => exact seated
  | learn id => exact seated
  | start => cases seated
  | abandon => cases seated
  | lose unknown gone => cases seated

variable [DecidableEq ρ]

namespace State

/--
The server has each session where its stage says, as long as the numbers drawn
differ from each other and from the id of a session that does not have one yet.
-/
def Located (state : State ρ) (stage : ρ → Stage) : Prop :=
  (draws state.handled).Nodup → 0 ∉ draws state.handled →
    ∀ a id room, (stage a).seat = some (id, room) → state.server.Placed id a room

omit [DecidableEq ρ] in
theorem located_new : (new : State ρ).Located fun _ => .idle := by
  intro _ _ a id room seated
  cases seated

section Step

variable {state : State ρ} {stage : ρ → Stage} {a b : ρ} {draw id : Nat} {request : Request ρ}
  {out : Outcome ρ} {next : Stage} {node : ρ → Node ρ}

omit [DecidableEq ρ] in
theorem Orderly.not_concerns (orderly : state.Orderly stage)
    (distinct : (draws (state.handled ++ [⟨a, draw, request, out.sent⟩])).Nodup)
    (nonzero : 0 ∉ draws state.handled) (serves : Serves a draw (stage a) request next)
    (other : b ≠ a) (granted : (stage b).granted = some id) :
    ¬ ChatServer.Concerns draw id request := by
  have drawn := orderly.drawn b id granted
  cases request with
  | connect addr =>
      rintro rfl
      rw [draws_connect] at distinct
      exact (fresh_of_nodup distinct).2 drawn
  | disconnect gone =>
      rintro rfl
      rw [draws_other nofun] at distinct
      rcases serves.of_disconnect with ⟨view, opened, -⟩ | ⟨zero, -⟩
      · have mine : (stage a).granted = some gone := congrArg Stage.granted opened
        exact other (orderly.unique distinct b a gone granted mine)
      · exact nonzero (zero ▸ drawn)
  | join joiner name =>
      rintro rfl
      rw [draws_other nofun] at distinct
      obtain ⟨room, opened, -⟩ := serves.of_join
      have mine : (stage a).granted = some joiner := congrArg Stage.granted opened
      exact other (orderly.unique distinct b a joiner granted mine)
  | message sender msg room => exact not_false
  | listRooms => exact not_false

omit [DecidableEq ρ] in
theorem Located.seat (located : state.Located stage) (orderly : state.Orderly stage)
    (distinct : (draws (state.handled ++ [⟨a, draw, request, out.sent⟩])).Nodup)
    (nonzero : 0 ∉ draws (state.handled ++ [⟨a, draw, request, out.sent⟩]))
    (handled : state.server.handle draw request = some out)
    (serves : Serves a draw (stage a) request next) {room : String}
    (seated : next.seat = some (id, room)) : out.server.Placed id a room := by
  generalize held : stage a = before at serves
  cases serves with
  | connect =>
      cases seated
      rw [draws_connect] at distinct
      have unused := (orderly.unused (fresh_of_nodup distinct).2).2
      constructor
      · rw [ChatServer.lookup_of_handle handled]
        exact if_pos rfl
      · intro other
        rw [ChatServer.member_of_handle handled]
        simp [ChatServer.MemberAfter, unused]
  | late unknown => cases seated
  | lateZero zero =>
      rw [draws_connect, zero] at nonzero
      exact absurd (List.mem_append_right _ List.mem_cons_self) nonzero
  | turn turns =>
      have other : ∀ b, request ≠ .connect b := by
        rintro b rfl
        cases turns
      rw [draws_other other] at distinct nonzero
      have earlier := located distinct nonzero a
      rw [held] at earlier
      cases turns with
      | message old msg => exact (earlier id room seated).handle handled not_false
      | listRooms old => exact (earlier id room seated).handle handled not_false
      | join old name =>
          cases seated
          have placed := earlier id old rfl
          constructor
          · rw [ChatServer.lookup_of_handle handled]
            exact placed.registered
          · intro other
            rw [ChatServer.member_of_handle handled]
            simp [ChatServer.MemberAfter]
      | disconnect => cases seated
  | stray given => cases seated
  | unheard => cases seated

theorem Located.step (located : state.Located stage) (orderly : state.Orderly stage)
    {label : Label ρ} {after : State ρ} {nextStage : ρ → Stage}
    (progress : Progress state stage label after nextStage) : after.Located nextStage := by
  cases progress with
  | @session a input next node moves =>
      intro distinct nonzero b id room seated
      apply located distinct nonzero
      rcases eq_or_ne b a with rfl | other
      · rw [Function.update_self] at seated
        exact moves.seat_of_seat seated
      · rw [Function.update_of_ne other] at seated
        exact seated
  | @serve a draw request rest out next node head handled present serves =>
      intro distinct nonzero b id room seated
      rcases eq_or_ne b a with rfl | other
      · rw [Function.update_self] at seated
        exact located.seat orderly distinct nonzero handled serves seated
      · rw [Function.update_of_ne other] at seated
        have subset := draws_sublist state.handled ⟨a, draw, request, out.sent⟩
        have before : 0 ∉ draws state.handled := fun zero => nonzero (subset.subset zero)
        have apart := orderly.not_concerns distinct before serves other
          (Stage.granted_of_seat seated)
        exact (located (distinct.sublist subset) before b id room seated).handle handled apart
  | skip => exact located

end Step

/-- Every reached state has stages that are orderly and where the server has the sessions. -/
theorem exists_located {history : List (Label ρ)} {state : State ρ}
    (run : (system ρ).run? history = some state) :
    ∃ stage, state.Staged stage ∧ state.Orderly stage ∧ state.Located stage :=
  exists_staged (fun state stage => state.Orderly stage ∧ state.Located stage)
    ⟨orderly_new, located_new⟩
    (fun _ _ _ _ _ _ both _ progress =>
      ⟨both.1.step progress, both.2.step both.1 progress⟩) run ((system ρ).meets_true history)

/-! ## Room-scoped delivery -/

omit [DecidableEq ρ] in
theorem Orderly.recipientsDistinct {state : State ρ} {stage : ρ → Stage}
    (orderly : state.Orderly stage) : state.server.RecipientsDistinct := by
  intro id other a first second
  have same := (orderly.recipients id a first).symm.trans (orderly.recipients other a second)
  exact Option.some.inj same

theorem progress_of_serve {state next : State ρ} {stage : ρ → Stage} (staged : state.Staged stage)
    {a : ρ} {draw : Nat} {request : Request ρ} {sent : List (ρ × String)}
    (stepped : (system ρ).step? state (.serve a draw) = some next)
    (served : next.handled = state.handled ++ [⟨a, draw, request, sent⟩]) :
    ∃ out after, state.server.handle draw request = some out ∧ out.sent = sent ∧
      next.server = out.server ∧ Serves a draw (stage a) request after := by
  have moved : state.step? (.serve a draw) = some next := stepped
  obtain ⟨nextStage, -, progress⟩ := progress_of_step? staged moved
  cases progress with
  | serve head handled present serves =>
      have last := List.append_cancel_left served
      cases last
      exact ⟨_, _, handled, rfl, rfl, serves⟩
  | skip => cases List.self_eq_append_right.mp served

/--
Room-scoped delivery.  When the server handles a message of a session, that
session is registered under the id and in the room of the message and no other.
Each other registered session of that room gets the message once, and nobody else
gets anything, the sender and the sessions of other rooms in particular.
-/
theorem room_scoped_delivery {history : List (Label ρ)} {state next : State ρ} {a : ρ}
    {draw id : Nat} {msg room : String} {sent : List (ρ × String)}
    (run : (system ρ).run? history = some state)
    (stepped : (system ρ).step? state (.serve a draw) = some next)
    (served : next.handled = state.handled ++ [⟨a, draw, .message id msg room, sent⟩])
    (distinct : (draws state.handled).Nodup) (nonzero : 0 ∉ draws state.handled) :
    state.server.Placed id a room ∧
      ChatServer.DeliversOnce sent msg (fun b => b ≠ a ∧
        ∃ other, state.server.sessions.lookup other = some b ∧ state.server.Member other room) ∧
      (∀ text, (a, text) ∉ sent) ∧
      ∀ b other elsewhere, state.server.Placed other b elsewhere → elsewhere ≠ room →
        ∀ text, (b, text) ∉ sent := by
  obtain ⟨stage, staged, orderly, located⟩ := exists_located run
  obtain ⟨out, after, handled, rfl, -, serves⟩ := progress_of_serve staged stepped served
  have placed : state.server.Placed id a room :=
    located distinct nonzero a id room (congrArg Stage.seat serves.of_message.1)
  have unambiguous := orderly.recipientsDistinct
  cases handled
  have delivers := ChatServer.sendMessage_deliversOnce unambiguous room msg id
  have chosen : ∀ b, (∃ other, other ≠ id ∧ state.server.Member other room ∧
      state.server.sessions.lookup other = some b) ↔ b ≠ a ∧
        ∃ other, state.server.sessions.lookup other = some b ∧ state.server.Member other room := by
    intro b
    constructor
    · rintro ⟨other, apart, inside, registered⟩
      refine ⟨?_, other, registered, inside⟩
      rintro rfl
      exact apart (unambiguous other id b registered placed.registered)
    · rintro ⟨apart, other, registered, inside⟩
      refine ⟨other, ?_, inside, registered⟩
      rintro rfl
      exact apart (Option.some.inj (registered.symm.trans placed.registered))
  have reaches : ∀ b text, (b, text) ∈ state.server.sendMessage room msg id ↔ text = msg ∧ b ≠ a ∧
      ∃ other, state.server.sessions.lookup other = some b ∧ state.server.Member other room := by
    intro b text
    rw [delivers.mem_iff, chosen]
  refine ⟨placed, ⟨delivers.nodup, reaches⟩, ?_, ?_⟩
  · intro text received
    exact ((reaches a text).mp received).2.1 rfl
  · intro b other elsewhere there apart text received
    obtain ⟨-, -, reached, registered, inside⟩ := (reaches b text).mp received
    have same := unambiguous reached other b registered there.registered
    subst same
    exact apart ((there.room_iff room).mp inside).symm

/-- Two sessions connect, and the first says `hi`. -/
def twoSessions : List (Label Nat) :=
  [.session 1 (.start .tcp 0), .serve 1 5, .session 1 .reply,
    .session 2 (.start .ws 0), .serve 2 6, .session 2 .reply,
    .session 1 (.request (.message "hi") 1)]

theorem room_scoped_delivery_two_sessions :
    ∃ state next, (system Nat).run? twoSessions = some state ∧
      (system Nat).step? state (.serve 1 0) = some next ∧
      next.handled = state.handled ++ [⟨1, 0, .message 5 "hi" "Main", [(2, "hi")]⟩] ∧
      state.server.Placed 5 1 "Main" :=
  ⟨_, _, rfl, rfl, rfl, (@room_scoped_delivery Nat _ twoSessions _ _ 1 0 5 "hi" "Main" [(2, "hi")]
    rfl rfl rfl (by decide) (by decide)).1⟩

end State

end RustDemo.Chat
