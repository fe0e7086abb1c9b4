import RustDemo.Chat.Delivery

/-!
# Nothing is left of a stopped session

A session that stops reports the id it has then.  If it was stopped while the
answer to its `Connect` was still on its way, that is not the id the server
registered for it.
-/

namespace RustDemo.Chat

open RustDemo.Collections RustDemo.Transition

variable {ρ : Type}

namespace State

/-- The recipient that the last connection with this id was for. -/
def owner (id : Nat) (handled : List (Handled ρ)) : Option ρ :=
  handled.foldl (fun owner entry =>
    match entry.request with
    | .connect addr => if entry.draw = id then some addr else owner
    | _ => owner) none

/-- The session has stopped, and the server has processed all that it sent. -/
def TornDown (state : State ρ) (a : ρ) : Prop :=
  (state.node a).phase = .stopped ∧ (state.node a).outbox = []

/--
No session that is torn down has an entry in `sessions`, and no room contains an
id that was registered for it.
-/
def NoLeak (state : State ρ) : Prop :=
  ∀ a, state.TornDown a → (∀ id, state.server.sessions.lookup id ≠ some a) ∧
    ∀ id room, owner id state.handled = some a → ¬ state.server.Member id room

/--
No session is told to stop before it has handled the answer to its `Connect` and
after the server got to it, except that the number drawn for it may be the id it
has until then; and every join that is handled comes from an id that is
registered at that moment.
-/
structure Careful (state : State ρ) (label : Label ρ) : Prop where
  answered : ∀ a, label = .session a .disconnected → (state.node a).phase = .waiting (.connect a) →
    ∀ id, (state.node a).reply = some (.id id) → id = 0
  connected : ∀ a draw b rest, label = .serve a draw →
    (state.node a).outbox = .connect b :: rest →
      (state.node a).phase = .stopping → draw = 0
  joined : ∀ a draw id name rest, label = .serve a draw →
    (state.node a).outbox = .join id name :: rest → id ∈ state.server.sessions

/--
Every entry belongs to a session that is open in the server's view, every member
of a room has an entry, and nobody has lost an id.
-/
structure Attended (state : State ρ) (stage : ρ → Stage) : Prop where
  seated : ∀ id a, state.server.sessions.lookup id = some a →
    ∃ room, (stage a).seat = some (id, room)
  owned : ∀ id a, state.server.sessions.lookup id = some a → owner id state.handled = some a
  noGhosts : state.server.NoGhosts
  found : ∀ a id, stage a ≠ .lost id

theorem attended_new : (new : State ρ).Attended fun _ => .idle where
  seated _ _ registered := by cases registered
  owned _ _ registered := by cases registered
  noGhosts id room inside := (ChatServer.default_not_member id room inside).elim
  found _ _ := nofun

theorem owner_connect (id : Nat) (handled : List (Handled ρ)) (a b : ρ) (draw : Nat)
    (sent : List (ρ × String)) :
    owner id (handled ++ [⟨a, draw, .connect b, sent⟩]) =
      if draw = id then some b else owner id handled := by
  simp [owner]

theorem owner_other {request : Request ρ} (other : ∀ b, request ≠ .connect b) (id : Nat)
    (handled : List (Handled ρ)) (a : ρ) (draw : Nat) (sent : List (ρ × String)) :
    owner id (handled ++ [⟨a, draw, request, sent⟩]) = owner id handled := by
  cases request with
  | connect b => exact absurd rfl (other b)
  | _ => simp [owner]

end State

theorem Moves.seat_eq {input : Input} {stage next : Stage} (moves : Moves input stage next)
    (found : ∀ id, next ≠ .lost id) : next.seat = stage.seat := by
  cases moves with
  | lose unknown gone => exact absurd rfl (found _)
  | _ => rfl

variable [DecidableEq ρ]

namespace State

namespace Attended

variable {state : State ρ} {stage : ρ → Stage} {a : ρ} {draw : Nat} {request : Request ρ}
  {out : Outcome ρ} {next : Stage} {node : ρ → Node ρ}

theorem found_update (attended : state.Attended stage) (found : ∀ id, next ≠ .lost id) (b : ρ)
    (id : Nat) : Function.update stage a next b ≠ .lost id := by
  rcases eq_or_ne b a with rfl | other
  · simpa using found id
  · simpa [other] using attended.found b id

theorem session (attended : state.Attended stage) {input : Input}
    (moves : Moves input (stage a) next) (found : ∀ id, next ≠ .lost id) :
    State.Attended { state with node := node } (Function.update stage a next) := by
  have seats : ∀ b, (Function.update stage a next b).seat = (stage b).seat := by
    intro b
    rcases eq_or_ne b a with rfl | other
    · simpa using moves.seat_eq found
    · simp [other]
  constructor
  · intro id b registered
    rw [seats]
    exact attended.seated id b registered
  · exact attended.owned
  · exact attended.noGhosts
  · exact attended.found_update found

omit [DecidableEq ρ] in
/-- A session keeps its seat, perhaps in another room, until it reports its departure. -/
theorem seat_of_serves (handled : state.server.handle draw request = some out)
    (serves : Serves a draw (stage a) request next) (other : ∀ b, request ≠ .connect b) {id : Nat}
    {room : String} (seated : (stage a).seat = some (id, room))
    (registered : out.server.sessions.lookup id = some a) :
    ∃ room, next.seat = some (id, room) := by
  rw [ChatServer.lookup_of_handle handled] at registered
  generalize stage a = before at serves seated
  cases serves with
  | connect => exact absurd rfl (other a)
  | late unknown => exact absurd rfl (other a)
  | lateZero zero => exact absurd rfl (other a)
  | turn turns =>
      cases turns with
      | message room msg => exact ⟨_, seated⟩
      | listRooms room => exact ⟨_, seated⟩
      | join old name =>
          cases seated
          exact ⟨name, rfl⟩
      | disconnect view =>
          have same := Stage.granted_of_seat seated
          cases same
          rw [ChatServer.lookupAfter, if_pos rfl] at registered
          cases registered
  | stray given => cases seated
  | unheard => cases seated

omit [DecidableEq ρ] in
theorem lookup_of_connect {b : ρ} (handled : state.server.handle draw (.connect b) = some out)
    {id : Nat} {c : ρ} (registered : out.server.sessions.lookup id = some c) :
    id = draw ∧ c = b ∨ id ≠ draw ∧ state.server.sessions.lookup id = some c := by
  rw [ChatServer.lookup_of_handle handled, ChatServer.lookupAfter] at registered
  split at registered
  · rename_i same
    exact Or.inl ⟨same, (Option.some.inj registered).symm⟩
  · rename_i apart
    exact Or.inr ⟨apart, registered⟩

omit [DecidableEq ρ] in
theorem seat_of_connect (serves : Serves a draw (stage a) (.connect a) next)
    (found : ∀ id, next ≠ .lost id) : ∃ room, next.seat = some (draw, room) := by
  generalize stage a = before at serves
  cases serves with
  | connect => exact ⟨"Main", rfl⟩
  | late unknown => exact absurd rfl (found draw)
  | lateZero zero => exact ⟨"Main", by rw [zero]; rfl⟩
  | turn turns => cases turns

theorem connect (attended : state.Attended stage)
    (handled : state.server.handle draw (.connect a) = some out)
    (serves : Serves a draw (stage a) (.connect a) next) (found : ∀ id, next ≠ .lost id) :
    (State.mk out.server node (state.handled ++ [⟨a, draw, .connect a, out.sent⟩])).Attended
      (Function.update stage a next) where
  seated id c registered := by
    rcases lookup_of_connect handled registered with ⟨rfl, rfl⟩ | ⟨-, before⟩
    · simpa using seat_of_connect serves found
    · obtain ⟨room, seated⟩ := attended.seated id c before
      have other : c ≠ a := by
        rintro rfl
        cases serves.of_connect.2.1.symm.trans (Stage.granted_of_seat seated)
      exact ⟨room, by simpa [other] using seated⟩
  owned id c registered := by
    rw [owner_connect]
    rcases lookup_of_connect handled registered with ⟨rfl, rfl⟩ | ⟨apart, before⟩
    · exact if_pos rfl
    · rw [if_neg (Ne.symm apart)]
      exact attended.owned id c before
  noGhosts := by
    refine attended.noGhosts.handle ?_ handled
    rintro id name ⟨⟩
  found := attended.found_update found

theorem serve (attended : state.Attended stage)
    (joined : state.server.JoinRegistered (draw, request))
    (handled : state.server.handle draw request = some out)
    (serves : Serves a draw (stage a) request next) (other : ∀ b, request ≠ .connect b)
    (found : ∀ id, next ≠ .lost id) :
    (State.mk out.server node (state.handled ++ [⟨a, draw, request, out.sent⟩])).Attended
      (Function.update stage a next) := by
  have before : ∀ id b, out.server.sessions.lookup id = some b →
      state.server.sessions.lookup id = some b := by
    intro id b registered
    rw [ChatServer.lookup_of_handle handled] at registered
    exact ChatServer.lookup_of_lookupAfter other registered
  constructor
  · intro id b registered
    obtain ⟨room, seated⟩ := attended.seated id b (before id b registered)
    rcases eq_or_ne b a with rfl | apart
    · simpa using seat_of_serves handled serves other seated registered
    · exact ⟨room, by simpa [apart] using seated⟩
  · intro id b registered
    rw [owner_other other]
    exact attended.owned id b (before id b registered)
  · exact attended.noGhosts.handle joined handled
  · exact attended.found_update found

theorem step (attended : state.Attended stage) (staged : state.Staged stage) {label : Label ρ}
    {after : State ρ} {nextStage : ρ → Stage} (careful : state.Careful label)
    (progress : Progress state stage label after nextStage) : after.Attended nextStage := by
  cases progress with
  | @session a input next node moves =>
      apply attended.session moves
      rintro id rfl
      have holds := staged a
      generalize held : stage a = before at moves holds
      cases moves with
      | stay => exact attended.found a id held
      | lose unknown gone =>
          obtain ⟨-, phase, -, reply⟩ := holds
          exact unknown (careful.answered a (by rw [gone]) phase id reply)
  | @serve a draw request rest out next node head handled present serves =>
      have joined : state.server.JoinRegistered (draw, request) := by
        rintro id name rfl
        exact careful.joined a draw id name rest rfl head
      have found : ∀ id, next ≠ .lost id := by
        rintro id rfl
        have holds := staged a
        generalize held : stage a = before at serves holds
        cases serves with
        | late unknown =>
            obtain ⟨-, ⟨phase, -⟩ | ⟨phase, -⟩⟩ := holds
            · exact unknown (careful.connected a draw a rest rfl head phase)
            · exact present phase a rfl
        | stray => exact attended.found a id held
      cases request with
      | connect b =>
          obtain ⟨rfl, -⟩ := serves.of_connect
          exact attended.connect handled serves found
      | _ => exact attended.serve joined handled serves nofun found
  | skip => exact ⟨attended.seated, attended.owned, attended.noGhosts, attended.found⟩

end Attended

omit [DecidableEq ρ] in
theorem seat_of_tornDown {state : State ρ} {stage : ρ → Stage} (staged : state.Staged stage) {a : ρ}
    (torn : state.TornDown a) : (stage a).seat = none := by
  obtain ⟨phase, outbox⟩ := torn
  have holds := staged a
  cases held : stage a with
  | opened id view =>
      rw [held] at holds
      obtain ⟨last, follows, ends⟩ := Opened.queue holds
      rw [outbox] at follows
      rw [Node.Ends, phase] at ends
      have left : view = none := follows.eq_of_nil.trans ends
      rw [left]
      rfl
  | answered id =>
      rw [held] at holds
      cases phase.symm.trans holds.2.1
  | _ => rfl

/--
Nothing leaks in a run whose steps are all careful: in every state that such a
run reaches, nothing is left of the sessions that are torn down.
-/
theorem noLeak_of_careful {history : List (Label ρ)} {state : State ρ}
    (run : (system ρ).run? history = some state)
    (careful : (system ρ).Meets Careful history) : state.NoLeak := by
  obtain ⟨stage, staged, attended⟩ := exists_staged Attended attended_new
    (fun _ _ _ _ _ staged attended careful progress => attended.step staged careful progress)
    run careful
  intro a torn
  have left := seat_of_tornDown staged torn
  have absent : ∀ id, state.server.sessions.lookup id ≠ some a := by
    intro id registered
    obtain ⟨room, seated⟩ := attended.seated id a registered
    cases left.symm.trans seated
  refine ⟨absent, ?_⟩
  intro id room owned inside
  obtain ⟨b, registered⟩ := (HashMap.mem_iff_lookup _ _).mp (attended.noGhosts id room inside)
  have same := (attended.owned id b registered).symm.trans owned
  cases same
  exact absent id registered

omit [DecidableEq ρ] in
theorem careful_session {state : State ρ} {a : ρ} {input : Input} (other : input ≠ .disconnected) :
    state.Careful (.session a input) where
  answered _ same := absurd (Label.session.inj same).2 other
  connected _ _ _ _ := nofun
  joined _ _ _ _ _ := nofun

/-- A session that connects, closes and is processed to the end. -/
def closed : List (Label Nat) :=
  [.session 1 (.start .ws 0), .serve 1 5, .session 1 .reply, .session 1 (.frame .close 1),
    .session 1 .stopping, .serve 1 0]

theorem closed_careful : (system Nat).Meets Careful closed := by
  refine ⟨careful_session nofun, ?_⟩
  rintro _ ⟨⟩
  refine ⟨⟨nofun, ?_, ?_⟩, ?_⟩
  · rintro _ _ _ _ ⟨⟩ - impossible
    cases impossible
  · rintro _ _ _ _ _ ⟨⟩ impossible
    cases impossible
  rintro _ ⟨⟩
  refine ⟨careful_session nofun, ?_⟩
  rintro _ ⟨⟩
  refine ⟨careful_session nofun, ?_⟩
  rintro _ ⟨⟩
  refine ⟨careful_session nofun, ?_⟩
  rintro _ ⟨⟩
  refine ⟨⟨nofun, ?_, ?_⟩, fun _ _ => trivial⟩
  · rintro _ _ _ _ ⟨⟩ impossible
    cases impossible
  · rintro _ _ _ _ _ ⟨⟩ impossible
    cases impossible

theorem noLeak_of_careful_closed :
    ∃ state, (system Nat).run? closed = some state ∧ state.TornDown 1 ∧
      ∀ id, state.server.sessions.lookup id ≠ some 1 :=
  ⟨_, rfl, ⟨rfl, rfl⟩, (noLeak_of_careful rfl closed_careful 1 ⟨rfl, rfl⟩).1⟩

/-- A websocket that goes away before the answer to its connection arrives. -/
def goneWhileConnecting : List (Label Nat) :=
  [.session 1 (.start .ws 0), .serve 1 5, .session 1 .disconnected, .session 1 .stopping,
    .serve 1 0]

theorem gone_while_connecting_leaks :
    ¬ ∀ (history : List (Label Nat)) (state : State Nat),
      (system Nat).run? history = some state → state.NoLeak := by
  intro clean
  have leak := clean goneWhileConnecting _ rfl 1 ⟨rfl, rfl⟩
  exact leak.1 5 rfl

end State

end RustDemo.Chat
