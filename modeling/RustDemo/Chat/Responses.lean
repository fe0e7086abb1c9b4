import RustDemo.Chat.System
import RustDemo.Chat.Codec

/-!
# Responses that the clients can read

A request that was read from one frame is answered with a text of another
shape, so it may fit a frame where the answer does not.  A text of a websocket
is not framed at all before it is relayed, and the list of rooms grows.
-/

namespace RustDemo.Chat

open RustDemo.Transition RustDemo.Text RustDemo.Text.JsonString RustDemo.Stream.LengthPrefixed

variable {ρ ε : Type}

def Effect.frames (effects : List (Effect ρ)) : List Frame :=
  effects.filterMap fun effect =>
    match effect with
    | .write frame => some frame
    | _ => none

theorem perform_written (node : Node ρ) (effects : List (Effect ρ)) :
    (node.perform effects).written = node.written ++ Effect.frames effects := by
  induction effects generalizing node with
  | nil => simp [Node.perform, Effect.frames]
  | cons effect effects ih =>
      cases effect with
      | write frame =>
          rw [Node.perform, ih]
          simp [Effect.frames]
      | _ =>
          rw [Node.perform, ih]
          simp [Effect.frames]

/--
The response that an input calls for: to the one who joins, to every TCP session
that a text is relayed to, and to the one who asked for the rooms.
-/
inductive Due (node : Node ρ) : Input → ChatResponse → Prop where
  | joined {session : ChatSession} (actor : node.actor = .tcp session) (name : String)
      (now : Nat) : Due node (.request (.join name) now) (.joined name)
  | message {session : ChatSession} {text : String} {rest : List String}
      (actor : node.actor = .tcp session) (head : node.inbox = text :: rest) :
      Due node .deliver (.message text)
  | rooms {session : ChatSession} {names : List String} (actor : node.actor = .tcp session)
      (answer : node.reply = some (.rooms names)) : Due node .reply (.rooms names)

/-- The step writes just the response that is due, apart from pings. -/
def Writes (node : Node ρ) (input : Input) (after : Node ρ) : Prop :=
  ∃ frames, after.written = node.written ++ frames ∧
    ∀ response, response ≠ .ping → (.response response ∈ frames ↔ Due node input response)

theorem writes_perform {node moved : Node ρ} {input : Input} {effects : List (Effect ρ)}
    (same : moved.written = node.written)
    (due : ∀ response, response ≠ .ping →
      (.response response ∈ Effect.frames effects ↔ Due node input response)) :
    Writes node input (moved.perform effects) :=
  ⟨Effect.frames effects, by rw [perform_written, same], due⟩

theorem writes_nothing {node after : Node ρ} {input : Input} (same : after.written = node.written)
    (nothing : ∀ response, ¬ Due node input response) : Writes node input after :=
  ⟨[], by rw [same, List.append_nil], by simp [nothing]⟩

section Step

variable {a : ρ} {node after : Node ρ}

theorem writes_request {session : ChatSession} (actor : node.actor = .tcp session) (now : Nat)
    (request : ChatRequest) :
    Writes node (.request request now)
      ({ node with actor := .tcp (session.handle (ρ := ρ) now request).1 }.perform
        (session.handle now request).2) := by
  refine writes_perform rfl ?_
  intro response _
  cases request with
  | join name =>
      constructor
      · intro written
        have same : response = .joined name := by
          simpa [Effect.frames, ChatSession.handle] using written
        rw [same]
        exact .joined actor name now
      · intro due
        cases due
        simp [Effect.frames, ChatSession.handle]
  | _ =>
      constructor
      · intro written
        simp [Effect.frames, ChatSession.handle] at written
      · intro due
        cases due

theorem writes_frame {session : WsChatSession} (now : Nat) (message : WsMessage) :
    Writes node (.frame message now)
      ({ node with actor := .ws (session.handle (ρ := ρ) now message).1 }.perform
        (session.handle now message).2) := by
  refine writes_perform rfl ?_
  intro response _
  constructor
  · intro written
    cases message <;> simp [Effect.frames, WsChatSession.handle] at written
  · intro due
    cases due

theorem writes_deliver {text : String} {inbox : List String} (head : node.inbox = text :: inbox) :
    Writes node .deliver
      ({ node with inbox := inbox }.perform (node.actor.handleMessage text)) := by
  refine writes_perform rfl ?_
  intro response _
  cases actor : node.actor with
  | tcp session =>
      constructor
      · intro written
        have same : response = .message text := by
          simpa [Effect.frames, Actor.handleMessage, ChatSession.handleMessage] using written
        rw [same]
        exact .message actor head
      · intro due
        cases due with
        | message _ found =>
            cases head.symm.trans found
            simp [Effect.frames, Actor.handleMessage, ChatSession.handleMessage]
  | ws session =>
      constructor
      · intro written
        simp [Effect.frames, Actor.handleMessage, WsChatSession.handleMessage] at written
      · intro due
        cases due with
        | message other => cases actor.symm.trans other

theorem writes_interval (now : Nat) :
    Writes node (.interval now) (node.perform (node.actor.interval now)) := by
  refine writes_perform rfl ?_
  intro response notPing
  obtain ⟨pings, onlyPings, effects⟩ := node.actor.interval_eq (ρ := ρ) now
  have frames : Effect.frames (node.actor.interval now : List (Effect ρ)) = pings := by
    rcases effects with same | same <;> rw [same] <;>
      simp [Effect.frames, List.filterMap_map]
  rw [frames]
  constructor
  · intro written
    rcases onlyPings _ written with ping | ping
    · exact absurd (Frame.response.inj ping) notPing
    · cases ping
  · intro due
    cases due

theorem writes_reply {request : Request ρ} {reply : Reply} (answered : node.reply = some reply)
    (stepped : node.answer request reply = some after) : Writes node .reply after := by
  cases reply with
  | unit => cases request <;> cases stepped
  | id id =>
      cases request with
      | connect b =>
          have quiet := (node.actor.connected_eq (ρ := ρ) id).1
          simp only [Node.answer, quiet, Option.some.injEq] at stepped
          subst stepped
          refine writes_perform rfl ?_
          intro response _
          constructor
          · intro written
            simp [Effect.frames] at written
          · intro due
            cases due with
            | rooms _ answer => cases answered.symm.trans answer
      | _ => cases stepped
  | rooms names =>
      cases request with
      | listRooms =>
          cases stepped
          refine writes_perform rfl ?_
          intro response _
          cases actor : node.actor with
          | tcp session =>
              constructor
              · intro written
                have same : response = .rooms names := by
                  simpa [Effect.frames, Actor.listed, ChatSession.listed] using written
                rw [same]
                exact .rooms actor answered
              · intro due
                cases due with
                | rooms _ answer =>
                    cases answered.symm.trans answer
                    simp [Effect.frames, Actor.listed, ChatSession.listed]
          | ws session =>
              constructor
              · intro written
                simp [Effect.frames, Actor.listed] at written
              · intro due
                cases due with
                | rooms other => cases actor.symm.trans other
      | _ => cases stepped

theorem writes_of_step? {input : Input} (stepped : node.step? a input = some after) :
    Writes node input after := by
  cases Node.stepped_of_step? stepped with
  | start idle kind now => cases kind <;> exact writes_nothing rfl nofun
  | reply waiting answered answer => exact writes_reply answered answer
  | request running actor request now => exact writes_request actor now request
  | frame running actor message now => exact writes_frame now message
  | deliver running head => exact writes_deliver head
  | interval running now => exact writes_interval now
  | finished running => exact writes_nothing rfl nofun
  | disconnected actor alive => exact writes_nothing rfl nofun
  | stopping told =>
      rw [Actor.stopping_eq]
      exact writes_nothing rfl nofun

end Step

/-! ## What the clients read -/

variable [DecidableEq ρ]

namespace State

/-- Every response written to a TCP client is read back by it, and no more than that. -/
def Decodable (json : Json ε ChatResponse) (state : State ρ) : Prop :=
  ∀ a response, .response response ∈ (state.node a).written → response ≠ .ping →
    ∀ dst, EncodeSound (ChatCodec.encode json) (ClientChatCodec.decode json) response dst

/-- The JSON text of the response that the step calls for has at most 65535 bytes. -/
def ResponseFits (json : Json ε ChatResponse) (state : State ρ) (label : Label ρ) : Prop :=
  ∀ a input, label = .session a input → ∀ response, Due (state.node a) input response →
    (json.toString response).length ≤ 65535

/-- A response is read back by its client exactly if its JSON text fits a frame. -/
theorem response_sound_iff {json : Json ε ChatResponse} (roundTrips : json.RoundTrips)
    (response : ChatResponse) :
    (∀ dst, EncodeSound (ChatCodec.encode json) (ClientChatCodec.decode json) response dst) ↔
      (json.toString response).length ≤ 65535 := by
  constructor
  · intro sound
    by_contra long
    exact not_encodeSound_of_long (Nat.not_le.mp long) [] (sound [])
  · exact fun fits dst => encodeSound_of_fits roundTrips fits dst

theorem written_of_serve {state next : State ρ} {a : ρ} {draw : Nat}
    (served : state.serve a draw = some next) (b : ρ) :
    (next.node b).written = (state.node b).written :=
  (node_of_serve served b).2.2

omit [DecidableEq ρ] in
theorem due_ne_ping {node : Node ρ} {input : Input} {response : ChatResponse}
    (due : Due node input response) : response ≠ .ping := by
  cases due <;> nofun

/-- Each step adds to what the clients must read just the responses that are due. -/
theorem decodable_step {json : Json ε ChatResponse} (roundTrips : json.RoundTrips)
    {state next : State ρ} {label : Label ρ} (stepped : state.step? label = some next) :
    next.Decodable json ↔ state.Decodable json ∧ state.ResponseFits json label := by
  cases label with
  | serve a draw =>
      have same := written_of_serve stepped
      simp only [Decodable, same]
      exact ⟨fun sound => ⟨sound, nofun⟩, And.left⟩
  | session a input =>
      obtain ⟨after, moved, rfl⟩ := Option.map_eq_some_iff.mp stepped
      obtain ⟨frames, written, due⟩ := writes_of_step? moved
      constructor
      · intro sound
        constructor
        · intro b response listed
          apply sound b response
          by_cases own : b = a
          · subst own
            simpa [written] using Or.inl listed
          · simpa [Function.update_of_ne own] using listed
        · rintro _ _ ⟨⟩ response called
          apply (response_sound_iff roundTrips response).mp
          apply sound a response _ (due_ne_ping called)
          simpa [written] using Or.inr ((due response (due_ne_ping called)).mpr called)
      · rintro ⟨sound, fits⟩ b response listed notPing
        by_cases own : b = a
        · subst own
          simp only [Function.update_self, written, List.mem_append] at listed
          rcases listed with earlier | now
          · exact sound b response earlier notPing
          · exact (response_sound_iff roundTrips response).mpr
              (fits b input rfl response ((due response notPing).mp now))
        · simp only [Function.update_of_ne own] at listed
          exact sound b response listed notPing

/--
Exactly in the runs in which every response that is called for has a JSON text
of at most 65535 bytes, every response written is read back by its client.
-/
theorem decodable_iff (json : Json ε ChatResponse) (roundTrips : json.RoundTrips)
    {history : List (Label ρ)} {state : State ρ} (run : (system ρ).run? history = some state) :
    state.Decodable json ↔ (system ρ).Meets (ResponseFits json) history := by
  refine (system ρ).run?_induction (motive := fun history state =>
    state.Decodable json ↔ (system ρ).Meets (ResponseFits json) history) ?_ ?_ run
  · exact ⟨fun _ => (system ρ).meets_nil, fun _ _ _ written => absurd written List.not_mem_nil⟩
  · intro earlier middle label next reached ih stepped
    rw [decodable_step roundTrips stepped, ih, (system ρ).meets_snoc, reached]
    simp

def responses (frames : List Frame) : List ChatResponse :=
  frames.filterMap fun frame =>
    match frame with
    | .response response => some response
    | _ => none

omit [DecidableEq ρ] in
/--
The whole stream of a client.  When each response is read back, what a session
has written is read in full, each response once and in order, however it is cut.
-/
theorem Decodable.stream {json : Json ε ChatResponse} {state : State ρ}
    (decodable : state.Decodable json) (roundTrips : json.RoundTrips)
    (ping : (json.toString .ping).length ≤ 65535) (a : ρ) (chunks : List (List UInt8))
    (cut : chunks.flatten =
      encodeAll (ChatCodec.encode json) (responses (state.node a).written)) :
    (ClientChatCodec.decoder json).feed [] chunks =
      ((responses (state.node a).written).map .ok, [], []) := by
  refine feed_encodeAll roundTrips _ ?_ chunks cut
  intro response listed
  by_cases notPing : response = .ping
  · rw [notPing]
    exact ping
  · obtain ⟨frame, written, found⟩ := List.mem_filterMap.mp listed
    cases frame with
    | response same =>
        cases found
        exact (response_sound_iff roundTrips _).mp (decodable a _ written notPing)
    | _ => cases found

/-- The decoder of the server returned the request from what a client sent. -/
def Accepted (json : Json ε ChatRequest) (_ : State ρ) (label : Label ρ) : Prop :=
  ∀ a request now, label = .session a (.request request now) →
    ∃ src rest, ChatCodec.decode json src = (.ok (some request), rest)

def joins (name : String) : List (Label Nat) :=
  [.session 1 (.start .tcp 0), .serve 1 5, .session 1 .reply, .session 1 (.request (.join name) 1)]

theorem joins_fit {name : String}
    (fits : (compactResponses.toString (.joined name)).length ≤ 65535) :
    (system Nat).Meets (ResponseFits compactResponses) (joins name) := by
  refine ⟨?_, ?_⟩
  · rintro _ _ ⟨⟩ _ due
    cases due
  rintro _ ⟨⟩
  refine ⟨nofun, ?_⟩
  rintro _ ⟨⟩
  refine ⟨?_, ?_⟩
  · rintro _ _ ⟨⟩ _ due
    cases due with
    | rooms _ answer => cases answer
  rintro _ ⟨⟩
  refine ⟨?_, fun _ _ => trivial⟩
  rintro _ _ ⟨⟩ _ due
  cases due
  exact fits

theorem decodable_iff_attic :
    ∃ state, (system Nat).run? (joins "Attic") = some state ∧ state.Decodable compactResponses :=
  ⟨_, rfl, (decodable_iff compactResponses compactResponses_roundTrips rfl).mpr
    (joins_fit (by decide))⟩

theorem joins_accepted {name : String}
    (fits : (compactRequests.toString (.join name)).length ≤ 65535) :
    (system Nat).Meets (Accepted compactRequests) (joins name) := by
  refine ⟨nofun, ?_⟩
  rintro _ ⟨⟩
  refine ⟨nofun, ?_⟩
  rintro _ ⟨⟩
  refine ⟨nofun, ?_⟩
  rintro _ ⟨⟩
  refine ⟨?_, fun _ _ => trivial⟩
  rintro _ _ _ ⟨⟩
  have read := decode_frame compactRequests.fromSlice fits []
  rw [compactRequests_roundTrips] at read
  exact ⟨_, _, read⟩

/-- A join is answered to its client although the answer is too long for a frame. -/
theorem joins_not_decodable {name : String}
    (long : 65535 < (compactResponses.toString (.joined name)).length) :
    ∃ state, (system Nat).run? (joins name) = some state ∧ ¬ state.Decodable compactResponses := by
  refine ⟨_, rfl, ?_⟩
  intro sound
  exact not_encodeSound_of_long long []
    (sound 1 (.joined name) (List.mem_singleton.mpr rfl) nofun [])

theorem length_join (n : Nat) :
    (compactRequests.toString (.join (String.ofList (List.replicate n 'a')))).length = n + 24 := by
  have cmd : (Compact.key 0x7B "cmd" ++ quoted "Join").length = 13 := by decide
  have data : (Compact.key 0x2C "data").length = 8 := by decide
  have name := length_quoted_replicate n
  simp only [compactRequests, Compact.printRequest, Compact.tagged, List.length_append,
    List.length_singleton, name, data] at cmd ⊢
  omega

theorem length_joined (n : Nat) :
    (compactResponses.toString (.joined (String.ofList (List.replicate n 'a')))).length = n + 26 := by
  have cmd : (Compact.key 0x7B "cmd" ++ quoted "Joined").length = 15 := by decide
  have data : (Compact.key 0x2C "data").length = 8 := by decide
  have name := length_quoted_replicate n
  simp only [compactResponses, Compact.printResponse, Compact.tagged, List.length_append,
    List.length_singleton, name, data] at cmd ⊢
  omega

/-- With a name of 65511 letters the request just fits its frame, and the answer does not. -/
theorem accepted_join_not_decodable :
    ¬ ∀ (history : List (Label Nat)) (state : State Nat),
      (system Nat).run? history = some state →
        (system Nat).Meets (Accepted compactRequests) history →
          state.Decodable compactResponses := by
  intro readable
  have accepted := joins_accepted (length_join 65511).le
  obtain ⟨state, run, broken⟩ := joins_not_decodable
    (Nat.lt_of_lt_of_le (by omega) (length_joined 65511).ge)
  exact broken (readable _ state run accepted)

end State

end RustDemo.Chat
