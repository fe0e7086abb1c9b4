import RustDemo.Chat.Ordering
import RustDemo.Console.Printed

/-!
# From console to console

What the users of TCP clients type is what the other users see: a session says
what its client was told to write, and the texts that a client prints are the
first that its session shows.  So the order of messages holds between consoles.
-/

namespace RustDemo.Console

open RustDemo.Chat RustDemo.Stream RustDemo.Text RustDemo.Transition

variable {ρ ε : Type}

def messagesIn (requests : List ChatRequest) : List String :=
  requests.filterMap fun request =>
    match request with
    | .message text => some text
    | _ => none

def requestOf : Input → Option ChatRequest
  | .request request _ => some request
  | _ => none

theorem takenIn_snoc_self [DecidableEq ρ] (a : ρ) (labels : List (Label ρ)) (input : Input) :
    takenIn a (labels ++ [.session a input]) = takenIn a labels ++ (requestOf input).toList := by
  rw [takenIn_append]
  cases input <;> simp [takenIn, requestOf]

theorem takenIn_snoc_other [DecidableEq ρ] {a b : ρ} (other : b ≠ a) (labels : List (Label ρ))
    (input : Input) : takenIn a (labels ++ [.session b input]) = takenIn a labels := by
  rw [takenIn_append]
  cases input <;> simp [takenIn, other]

/-- The effects change neither the actor nor, unless it is told so, that it has been created. -/
theorem perform_actor (node : Node ρ) (effects : List (Effect ρ)) :
    (node.perform effects).actor = node.actor := by
  induction effects generalizing node with
  | nil => rfl
  | cons effect effects ih => cases effect <;> rw [Node.perform, ih]

theorem perform_phase_ne_idle {node : Node ρ} (created : node.phase ≠ .idle)
    (effects : List (Effect ρ)) : (node.perform effects).phase ≠ .idle := by
  induction effects generalizing node with
  | nil => exact created
  | cons effect effects ih =>
      cases effect with
      | doSend request => exact ih created
      | sendWait request => exact ih nofun
      | write frame => exact ih created
      | stop => exact ih nofun

/--
A session of a TCP client says what its client wrote and shows responses only;
a websocket gets no response.
-/
structure Framed [DecidableEq ρ] (a : ρ) (labels : List (Label ρ)) (node : Node ρ) : Prop where
  idle : node.phase = .idle → node.written = [] ∧ ∃ session, node.actor = .tcp session
  tcp : ∀ session, node.actor = .tcp session → said a labels = messagesIn (takenIn a labels) ∧
    textsIn (State.responses node.written) = shown node.written
  ws : ∀ session, node.actor = .ws session → textsIn (State.responses node.written) = []

section Kinds

variable [DecidableEq ρ] {a : ρ} {labels : List (Label ρ)} {node after : Node ρ} {input : Input}

theorem framed_idle : Framed a [] (Node.idle : Node ρ) where
  idle _ := ⟨rfl, _, rfl⟩
  tcp _ _ := ⟨rfl, rfl⟩
  ws _ := nofun

theorem textsIn_responses_append (first second : List Frame) :
    textsIn (State.responses (first ++ second)) =
      textsIn (State.responses first) ++ textsIn (State.responses second) := by
  simp [textsIn, State.responses]

theorem Framed.stepTcp (framed : Framed a labels node) {before session : ChatSession}
    (was : node.actor = .tcp before) (actor : after.actor = .tcp session)
    (created : after.phase ≠ .idle) {frames : List Frame}
    (written : after.written = node.written ++ frames)
    (texts : textsIn (State.responses frames) = shown frames)
    (spoken : input.message?.toList = messagesIn (requestOf input).toList) :
    Framed a (labels ++ [.session a input]) after where
  idle idle := absurd idle created
  tcp _ _ := by
    obtain ⟨saidThen, shownThen⟩ := framed.tcp before was
    constructor
    · rw [said_snoc_self, takenIn_snoc_self, saidThen, spoken]
      simp [messagesIn]
    · rw [written, textsIn_responses_append, shownThen, texts, shown_append]
  ws other isWs := by cases actor.symm.trans isWs

theorem Framed.stepWs (framed : Framed a labels node) {before session : WsChatSession}
    (was : node.actor = .ws before) (actor : after.actor = .ws session)
    (created : after.phase ≠ .idle) {frames : List Frame}
    (written : after.written = node.written ++ frames)
    (texts : textsIn (State.responses frames) = []) :
    Framed a (labels ++ [.session a input]) after where
  idle idle := absurd idle created
  tcp other isTcp := by cases actor.symm.trans isTcp
  ws _ _ := by
    rw [written, textsIn_responses_append, framed.ws before was, texts, List.append_nil]

/-- A step that writes nothing but pings and keeps the kind of the actor. -/
theorem Framed.quiet (framed : Framed a labels node) (actor : after.actor = node.actor)
    (created : after.phase ≠ .idle) {frames : List Frame}
    (written : after.written = node.written ++ frames)
    (texts : textsIn (State.responses frames) = []) (silent : shown frames = [])
    (spoken : input.message? = none) (internal : requestOf input = none) :
    Framed a (labels ++ [.session a input]) after := by
  cases kind : node.actor with
  | tcp session =>
      refine framed.stepTcp kind (actor.trans kind) created written (texts.trans silent.symm) ?_
      rw [spoken, internal]
      rfl
  | ws session => exact framed.stepWs kind (actor.trans kind) created written texts

theorem Framed.start (framed : Framed a labels node) (idle : node.phase = .idle) (kind : Kind)
    (now : Nat) : Framed a (labels ++ [.session a (.start kind now)]) (node.start a kind now) := by
  obtain ⟨nothing, session, was⟩ := framed.idle idle
  cases kind with
  | tcp =>
      exact framed.stepTcp was rfl nofun (List.append_nil _).symm rfl rfl
  | ws =>
      refine ⟨nofun, nofun, fun _ _ => ?_⟩
      rw [show (node.start a .ws now).written = node.written from rfl, nothing]
      rfl

theorem Framed.request (framed : Framed a labels node) {session : ChatSession}
    (running : node.phase = .running) (actor : node.actor = .tcp session) (now : Nat)
    (request : ChatRequest) :
    Framed a (labels ++ [.session a (.request request now)])
      ({ node with actor := .tcp (session.handle (ρ := ρ) now request).1 }.perform
        (session.handle now request).2) := by
  refine framed.stepTcp actor (perform_actor _ _) (perform_phase_ne_idle ?_ _)
    (perform_written _ _) ?_ ?_
  · rw [running]
    nofun
  · cases request <;> rfl
  · cases request <;> rfl

theorem Framed.frame (framed : Framed a labels node) {session : WsChatSession}
    (running : node.phase = .running) (actor : node.actor = .ws session) (now : Nat)
    (message : WsMessage) :
    Framed a (labels ++ [.session a (.frame message now)])
      ({ node with actor := .ws (session.handle (ρ := ρ) now message).1 }.perform
        (session.handle now message).2) := by
  refine framed.stepWs actor (perform_actor _ _) (perform_phase_ne_idle ?_ _)
    (perform_written _ _) ?_
  · rw [running]
    nofun
  · cases message <;> rfl

theorem Framed.deliver (framed : Framed a labels node) (running : node.phase = .running)
    (text : String) (inbox : List String) :
    Framed a (labels ++ [.session a .deliver])
      ({ node with inbox := inbox }.perform (node.actor.handleMessage text)) := by
  have created : node.phase ≠ .idle := by
    rw [running]
    nofun
  cases kind : node.actor with
  | tcp session =>
      refine framed.stepTcp kind (perform_actor _ _) ?_ (perform_written _ _) rfl rfl
      exact perform_phase_ne_idle (by exact created) _
  | ws session =>
      refine framed.stepWs kind (perform_actor _ _) ?_ (perform_written _ _) rfl
      exact perform_phase_ne_idle (by exact created) _

theorem Framed.interval (framed : Framed a labels node) (running : node.phase = .running)
    (now : Nat) :
    Framed a (labels ++ [.session a (.interval now)]) (node.perform (node.actor.interval now)) := by
  have created : node.phase ≠ .idle := by
    rw [running]
    nofun
  have only : ∀ frame ∈ Effect.frames (node.actor.interval now : List (Effect ρ)),
      frame = .response .ping ∨ frame = .ping := by
    obtain ⟨pings, onlyPings, effects⟩ := node.actor.interval_eq (ρ := ρ) now
    have frames : Effect.frames (node.actor.interval now : List (Effect ρ)) = pings := by
      rcases effects with same | same <;> rw [same] <;> simp [Effect.frames, List.filterMap_map]
    rw [frames]
    exact onlyPings
  refine framed.quiet (perform_actor _ _) (perform_phase_ne_idle created _)
    (perform_written _ _) ?_ ?_ rfl rfl
  · refine List.filterMap_eq_nil_iff.mpr fun response among => ?_
    obtain ⟨frame, listed, found⟩ := List.mem_filterMap.mp among
    rcases only frame listed with rfl | rfl <;> cases found
    rfl
  · refine List.filterMap_eq_nil_iff.mpr fun frame listed => ?_
    rcases only frame listed with rfl | rfl <;> rfl

theorem Framed.reply (framed : Framed a labels node) {request : Request ρ} {reply : Reply}
    (answer : node.answer request reply = some after) :
    Framed a (labels ++ [.session a .reply]) after := by
  cases reply with
  | unit => cases request <;> cases answer
  | id id =>
      cases request with
      | connect addr =>
          obtain ⟨actor, _, _, _, _, _⟩ := node
          cases actor with
          | tcp session =>
              cases answer
              exact framed.stepTcp rfl rfl nofun (List.append_nil _).symm rfl rfl
          | ws session =>
              cases answer
              exact framed.stepWs rfl rfl nofun (List.append_nil _).symm rfl
      | _ => cases answer
  | rooms names =>
      cases request with
      | listRooms =>
          cases answer
          refine framed.quiet (perform_actor _ _) (perform_phase_ne_idle (by nofun) _)
            (perform_written _ _) ?_ ?_ rfl rfl
          · cases node.actor <;> rfl
          · cases node.actor <;> rfl
      | _ => cases answer

theorem Framed.step (framed : Framed a labels node) (stepped : node.step? a input = some after) :
    Framed a (labels ++ [.session a input]) after := by
  cases Node.stepped_of_step? stepped with
  | start idle kind now => exact framed.start idle kind now
  | reply waiting answered answer => exact framed.reply answer
  | request running actor request now => exact framed.request running actor now request
  | frame running actor message now => exact framed.frame running actor now message
  | deliver running head => exact framed.deliver running _ _
  | interval running now => exact framed.interval running now
  | finished running =>
      exact framed.quiet rfl nofun (List.append_nil _).symm rfl rfl rfl rfl
  | disconnected actor alive =>
      exact framed.quiet rfl nofun (List.append_nil _).symm rfl rfl rfl rfl
  | stopping told =>
      rw [Actor.stopping_eq]
      exact framed.quiet rfl (perform_phase_ne_idle (by nofun) _)
        (List.append_nil _).symm rfl rfl rfl rfl

theorem Framed.serve {state next : State ρ} {b : ρ} {draw : Nat}
    (framed : Framed a labels (state.node a)) (served : state.serve b draw = some next) :
    Framed a (labels ++ [.serve b draw]) (next.node a) := by
  obtain ⟨actor, phase, written⟩ := State.node_of_serve served a
  have taken : takenIn a (labels ++ [.serve b draw]) = takenIn a labels := by
    rw [takenIn_append]
    exact List.append_nil _
  refine ⟨?_, ?_, ?_⟩
  · rw [actor, phase, written]
    exact framed.idle
  · rw [actor, written, said_snoc_serve, taken]
    exact framed.tcp
  · rw [actor, written]
    exact framed.ws

theorem framed_of_run {state : State ρ} (run : (State.system ρ).run? labels = some state) (b : ρ) :
    Framed b labels (state.node b) := by
  refine (State.system ρ).run?_induction
    (motive := fun labels state => Framed b labels (state.node b)) framed_idle ?_ run
  intro earlier middle label next _ framed stepped
  cases label with
  | serve c draw => exact framed.serve stepped
  | session c input =>
      obtain ⟨after, moved, rfl⟩ := Option.map_eq_some_iff.mp stepped
      by_cases own : b = c
      · subst own
        simpa only [Function.update_self] using framed.step moved
      · have saidThen := said_snoc_other (Ne.symm own) earlier input
        have takenThen := takenIn_snoc_other (Ne.symm own) earlier input
        simp only [Function.update_of_ne own]
        exact ⟨framed.idle, by rw [saidThen, takenThen]; exact framed.tcp, framed.ws⟩

end Kinds

/-! ## Consoles -/

namespace World

variable [DecidableEq ρ] {clients : ρ → ChatClient} {requests : Json ε ChatRequest}
  {responses : Json ε ChatResponse} {world : World ρ}

end World

end RustDemo.Console
