import RustDemo.Chat.Protocol

/-!
# Heartbeats

A session ends because its stream ends, its socket goes away or is closed, or
because a tick finds that the last sign of life is more than `CLIENT_TIMEOUT`
ago.  Pings are signs of life, and for a websocket pongs; messages are not.
-/

namespace RustDemo.Chat

open RustDemo.Transition

variable {ρ : Type}

/-- The time of the last sign of life, as the actor has it. -/
def Actor.hb : Actor → Nat
  | tcp session => session.hb
  | ws session => session.hb

/-- The time of the input, if it is a sign of life. -/
def Input.sign? : Input → Option Nat
  | .start _ now => some now
  | .request .ping now => some now
  | .frame (.ping _) now => some now
  | .frame .pong now => some now
  | _ => none

/-- The input ends a running session whose last sign of life was at this time. -/
def Input.Ends (sign : Nat) : Input → Prop
  | .interval now => now - sign > CLIENT_TIMEOUT
  | .finished | .disconnected | .frame .close _ => True
  | _ => False

def Node.Over (node : Node ρ) : Prop := node.phase = .stopping ∨ node.phase = .stopped

section Record

variable [DecidableEq ρ]

/-- The last sign of life that a history has for a session. -/
def lastSign (a : ρ) (history : List (Label ρ)) : Nat :=
  history.foldl (fun sign label =>
    match label with
    | .session b input => if b = a then input.sign?.getD sign else sign
    | .serve _ _ => sign) 0

def Ended (a : ρ) (history : List (Label ρ)) : Prop :=
  ∃ earlier input later, history = earlier ++ .session a input :: later ∧
    input.Ends (lastSign a earlier)

theorem lastSign_snoc_self (a : ρ) (history : List (Label ρ)) (input : Input) :
    lastSign a (history ++ [.session a input]) = input.sign?.getD (lastSign a history) := by
  simp [lastSign]

theorem lastSign_snoc_other {a b : ρ} (other : b ≠ a) (history : List (Label ρ)) (input : Input) :
    lastSign a (history ++ [.session b input]) = lastSign a history := by
  simp [lastSign, other]

theorem lastSign_snoc_serve (a b : ρ) (history : List (Label ρ)) (draw : Nat) :
    lastSign a (history ++ [.serve b draw]) = lastSign a history := by
  simp [lastSign]

theorem ended_snoc (a : ρ) (history : List (Label ρ)) (label : Label ρ) :
    Ended a (history ++ [label]) ↔
      Ended a history ∨ ∃ input, label = .session a input ∧ input.Ends (lastSign a history) := by
  constructor
  · rintro ⟨earlier, input, later, split, ends⟩
    rcases List.eq_nil_or_concat later with rfl | ⟨body, last, rfl⟩
    · obtain ⟨rfl, same⟩ := List.append_inj' split rfl
      cases same
      exact Or.inr ⟨input, rfl, ends⟩
    · rw [List.concat_eq_append, ← List.cons_append, ← List.append_assoc] at split
      exact Or.inl ⟨earlier, input, body, (List.append_inj' split rfl).1, ends⟩
  · rintro (⟨earlier, input, later, rfl, ends⟩ | ⟨input, rfl, ends⟩)
    · exact ⟨earlier, input, later ++ [label], by simp, ends⟩
    · exact ⟨history, input, [], rfl, ends⟩

end Record

/-- A step takes its sign of life, and ends the session if its input does. -/
structure Beats (node : Node ρ) (input : Input) (after : Node ρ) : Prop where
  hb : after.actor.hb = input.sign?.getD node.actor.hb
  told : after.Over ↔ node.Over ∨ input.Ends node.actor.hb

section Step

variable {a : ρ} {node after : Node ρ} {input : Input}

theorem Beats.goesOn (hb : after.actor.hb = input.sign?.getD node.actor.hb) (alive : ¬ after.Over)
    (was : ¬ node.Over) (harmless : ¬ input.Ends node.actor.hb) : Beats node input after :=
  ⟨hb, iff_of_false alive fun before => before.elim was harmless⟩

theorem Beats.stops (hb : after.actor.hb = input.sign?.getD node.actor.hb) (told : after.Over)
    (ends : input.Ends node.actor.hb) : Beats node input after :=
  ⟨hb, iff_of_true told (Or.inr ends)⟩

theorem not_over_of_running {node : Node ρ} (running : node.phase = .running) : ¬ node.Over := by
  rintro (stopping | stopped)
  · cases running.symm.trans stopping
  · cases running.symm.trans stopped

theorem not_over_of_waiting {node : Node ρ} {request : Request ρ}
    (waiting : node.phase = .waiting request) : ¬ node.Over := by
  rintro (stopping | stopped)
  · cases waiting.symm.trans stopping
  · cases waiting.symm.trans stopped

theorem beats_request {session : ChatSession} (running : node.phase = .running)
    (actor : node.actor = .tcp session) (now : Nat) (request : ChatRequest) :
    Beats node (.request request now)
      ({ node with actor := .tcp (session.handle (ρ := ρ) now request).1 }.perform
        (session.handle now request).2) := by
  have was := not_over_of_running running
  obtain ⟨_, _, _, _, _, _⟩ := node
  cases actor
  cases running
  cases request with
  | list => exact .goesOn rfl (not_over_of_waiting rfl) was not_false
  | join name => exact .goesOn rfl (not_over_of_running rfl) was not_false
  | message text => exact .goesOn rfl (not_over_of_running rfl) was not_false
  | ping => exact .goesOn rfl (not_over_of_running rfl) was not_false

theorem beats_frame {session : WsChatSession} (running : node.phase = .running)
    (actor : node.actor = .ws session) (now : Nat) (message : WsMessage) :
    Beats node (.frame message now)
      ({ node with actor := .ws (session.handle (ρ := ρ) now message).1 }.perform
        (session.handle now message).2) := by
  have was := not_over_of_running running
  obtain ⟨_, _, _, _, _, _⟩ := node
  cases actor
  cases running
  cases message with
  | ping bytes => exact .goesOn rfl (not_over_of_running rfl) was not_false
  | pong => exact .goesOn rfl (not_over_of_running rfl) was not_false
  | text text => exact .goesOn rfl (not_over_of_running rfl) was not_false
  | binary => exact .goesOn rfl (not_over_of_running rfl) was not_false
  | close => exact .stops rfl (Or.inl rfl) trivial

/-- A tick ends the session exactly if its last sign of life is too long ago. -/
theorem beats_interval (running : node.phase = .running) (now : Nat) :
    Beats node (.interval now) (node.perform (node.actor.interval now)) := by
  have was := not_over_of_running running
  obtain ⟨actor, _, _, _, _, _⟩ := node
  cases running
  cases actor with
  | tcp session =>
      by_cases silent : now - session.hb > CLIENT_TIMEOUT
      · simp only [Actor.interval, ChatSession.interval, if_pos silent]
        exact .stops rfl (Or.inl rfl) silent
      · simp only [Actor.interval, ChatSession.interval, if_neg silent]
        exact .goesOn rfl (not_over_of_running rfl) was silent
  | ws session =>
      by_cases silent : now - session.hb > CLIENT_TIMEOUT
      · simp only [Actor.interval, WsChatSession.interval, if_pos silent]
        exact .stops rfl (Or.inl rfl) silent
      · simp only [Actor.interval, WsChatSession.interval, if_neg silent]
        exact .goesOn rfl (not_over_of_running rfl) was silent

theorem beats_reply {request : Request ρ} {reply : Reply} (waiting : node.phase = .waiting request)
    (answer : node.answer request reply = some after) : Beats node .reply after := by
  have was := not_over_of_waiting waiting
  cases reply with
  | unit => cases request <;> cases answer
  | id id =>
      cases request with
      | connect addr =>
          obtain ⟨actor, _, _, _, _, _⟩ := node
          cases actor <;> cases answer
          · exact .goesOn rfl (not_over_of_running rfl) was not_false
          · exact .goesOn rfl (not_over_of_running rfl) was not_false
      | _ => cases answer
  | rooms names =>
      cases request with
      | listRooms =>
          obtain ⟨frames, writes⟩ := node.actor.listed_eq (ρ := ρ) names
          rw [Node.answer, writes, perform_writes] at answer
          cases answer
          exact .goesOn rfl (not_over_of_running rfl) was not_false
      | _ => cases answer

theorem beats_of_step? (stepped : node.step? a input = some after) : Beats node input after := by
  cases Node.stepped_of_step? stepped with
  | start idle kind now =>
      have was : ¬ node.Over := by
        rintro (stopping | stopped)
        · cases idle.symm.trans stopping
        · cases idle.symm.trans stopped
      cases kind with
      | tcp => exact .goesOn rfl (not_over_of_waiting rfl) was not_false
      | ws => exact .goesOn rfl (not_over_of_waiting rfl) was not_false
  | reply waiting answered answer => exact beats_reply waiting answer
  | request running actor request now => exact beats_request running actor now request
  | frame running actor message now => exact beats_frame running actor now message
  | deliver running head =>
      obtain ⟨frame, writes⟩ := node.actor.handleMessage_eq (ρ := ρ) _
      rw [writes]
      exact .goesOn rfl (not_over_of_running running) (not_over_of_running running) not_false
  | interval running now => exact beats_interval running now
  | finished running => exact .stops rfl (Or.inl rfl) trivial
  | disconnected actor alive => exact .stops rfl (Or.inl rfl) trivial
  | stopping told =>
      rw [Actor.stopping_eq]
      exact ⟨rfl, iff_of_true (Or.inr rfl) (Or.inl (Or.inl told))⟩

end Step

/-! ## Every run -/

namespace State

variable [DecidableEq ρ]

/--
Heartbeats.  In every interleaving a session has been told to stop exactly if
its socket was closed or went away, its stream ended, or a tick came more than
`CLIENT_TIMEOUT` after the last sign of life of its peer.
-/
theorem over_iff_ended {history : List (Label ρ)} {state : State ρ}
    (run : (system ρ).run? history = some state) (a : ρ) :
    (state.node a).Over ↔ Ended a history := by
  suffices both : (state.node a).actor.hb = lastSign a history ∧
      ((state.node a).Over ↔ Ended a history) from both.2
  refine (system ρ).run?_induction (motive := fun history state =>
    (state.node a).actor.hb = lastSign a history ∧ ((state.node a).Over ↔ Ended a history)) ?_ ?_ run
  · refine ⟨rfl, iff_of_false ?_ ?_⟩
    · rintro (idle | idle) <;> cases idle
    · rintro ⟨earlier, input, later, split, -⟩
      cases earlier <;> cases split
  rintro earlier middle label next - ⟨hb, told⟩ stepped
  rw [ended_snoc]
  cases label with
  | serve b draw =>
      obtain ⟨actor, phase, -⟩ := node_of_serve stepped a
      rw [lastSign_snoc_serve, Node.Over, actor, phase]
      refine ⟨hb, told.trans (or_iff_left ?_).symm⟩
      rintro ⟨_, ⟨⟩, -⟩
  | session b input =>
      obtain ⟨after, moved, rfl⟩ := Option.map_eq_some_iff.mp stepped
      by_cases own : a = b
      · subst own
        have beats := beats_of_step? moved
        simp only [Function.update_self]
        rw [lastSign_snoc_self, beats.hb, beats.told, told, hb]
        simp
      · simp only [Function.update_of_ne own, lastSign_snoc_other (Ne.symm own)]
        refine ⟨hb, told.trans ?_⟩
        simp [Ne.symm own]

/-- A client is silent for ten seconds and one nanosecond. -/
theorem over_iff_ended_silent :
    ∃ state, (system Nat).run? [.session 1 (.start .tcp 0), .serve 1 5, .session 1 .reply,
        .session 1 (.request (.message "hi") 9), .session 1 (.interval (10 ^ 10 + 1))] = some state ∧
      Ended 1 [.session 1 (.start .tcp 0), .serve 1 5, .session 1 .reply,
        .session 1 (.request (.message "hi") 9), .session 1 (.interval (10 ^ 10 + 1))] :=
  ⟨_, rfl, (over_iff_ended rfl 1).mp (Or.inl rfl)⟩

end State

end RustDemo.Chat
