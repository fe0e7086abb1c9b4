import RustDemo.Chat.Ordering

/-!
# Waiting sessions and drained sessions

A session that waits holds everything else back, so it must not wait in vain:
the server brings it its answer by handling what the session has sent.  A
session that runs and has sent nothing more is where it believes to be.
-/

namespace RustDemo.Chat

open RustDemo.Collections RustDemo.Text RustDemo.Transition

variable {ρ : Type}

/-- A session that waits for the rooms has the answer, or its request is the last on its way. -/
def Node.Awaits (node : Node ρ) : Prop :=
  node.phase = .waiting .listRooms →
    (∃ queue, node.outbox = queue ++ [.listRooms]) ∨ ∃ names, node.reply = some (.rooms names)

section Step

variable {a : ρ} {node after : Node ρ} {input : Input}

theorem awaits_of_phase (other : after.phase ≠ .waiting .listRooms) : after.Awaits :=
  fun waiting => absurd waiting other

theorem awaits_request {session : ChatSession} (running : node.phase = .running) (now : Nat)
    (request : ChatRequest) :
    ({ node with actor := .tcp (session.handle (ρ := ρ) now request).1 }.perform
      (session.handle now request).2).Awaits := by
  obtain ⟨_, _, outbox, _, _, _⟩ := node
  cases running
  cases request with
  | list => exact fun _ => Or.inl ⟨outbox, rfl⟩
  | join name => exact awaits_of_phase (by rintro ⟨⟩)
  | message text => exact awaits_of_phase (by rintro ⟨⟩)
  | ping => exact awaits_of_phase (by rintro ⟨⟩)

theorem awaits_frame {session : WsChatSession} (running : node.phase = .running) (now : Nat)
    (message : WsMessage) :
    ({ node with actor := .ws (session.handle (ρ := ρ) now message).1 }.perform
      (session.handle now message).2).Awaits := by
  obtain ⟨_, _, _, _, _, _⟩ := node
  cases running
  cases message <;> exact awaits_of_phase (by rintro ⟨⟩)

theorem awaits_interval (running : node.phase = .running) (now : Nat) :
    (node.perform (node.actor.interval now)).Awaits := by
  obtain ⟨pings, -, quiet | departs⟩ := node.actor.interval_eq (ρ := ρ) now
  · rw [quiet, perform_writes]
    refine awaits_of_phase ?_
    rw [running]
    rintro ⟨⟩
  · rw [departs, Node.perform, Node.perform, perform_writes]
    exact awaits_of_phase (by rintro ⟨⟩)

theorem awaits_reply {request : Request ρ} {reply : Reply}
    (answer : node.answer request reply = some after) : after.Awaits := by
  cases reply with
  | unit => cases request <;> cases answer
  | id id =>
      cases request with
      | connect addr =>
          obtain ⟨actor, _, _, _, _, _⟩ := node
          cases actor <;> cases answer <;> exact awaits_of_phase (by rintro ⟨⟩)
      | _ => cases answer
  | rooms names =>
      cases request with
      | listRooms =>
          obtain ⟨frames, writes⟩ := node.actor.listed_eq (ρ := ρ) names
          rw [Node.answer, writes, perform_writes] at answer
          cases answer
          exact awaits_of_phase (by rintro ⟨⟩)
      | _ => cases answer

theorem awaits_of_step? (stepped : node.step? a input = some after) : after.Awaits := by
  cases Node.stepped_of_step? stepped with
  | start idle kind now => cases kind <;> exact awaits_of_phase (by rintro ⟨⟩)
  | reply waiting answered answer => exact awaits_reply answer
  | request running actor request now => exact awaits_request running now request
  | frame running actor message now => exact awaits_frame running now message
  | deliver running head =>
      obtain ⟨frame, writes⟩ := node.actor.handleMessage_eq (ρ := ρ) _
      rw [writes]
      refine awaits_of_phase ?_
      rw [Node.perform, Node.perform, running]
      rintro ⟨⟩
  | interval running now => exact awaits_interval running now
  | finished running => exact awaits_of_phase (by rintro ⟨⟩)
  | disconnected actor alive => exact awaits_of_phase (by rintro ⟨⟩)
  | stopping told =>
      rw [Actor.stopping_eq]
      exact awaits_of_phase (by rintro ⟨⟩)

theorem Node.Awaits.served (awaits : node.Awaits) {request : Request ρ} {rest : List (Request ρ)}
    (head : node.outbox = request :: rest) (opened : ∀ b, request ≠ .connect b)
    {server : ChatServer ρ} {draw : Nat} {out : Outcome ρ}
    (handled : server.handle draw request = some out) : (node.served rest out.reply).Awaits := by
  intro waiting
  have replied := ChatServer.reply_of_handle handled
  cases request with
  | connect b => exact absurd rfl (opened b)
  | listRooms =>
      rw [replied]
      exact Or.inr ⟨_, rfl⟩
  | _ =>
      rw [replied]
      refine (awaits waiting).imp_left ?_
      rintro ⟨queue, outbox⟩
      rw [head] at outbox
      cases queue with
      | nil => cases outbox
      | cons first later => exact ⟨later, (List.cons.inj outbox).2⟩

theorem running_of_answer {request : Request ρ} {reply : Reply}
    (waiting : node.phase = .waiting request) (answered : node.reply = some reply)
    (fits : (∃ b id, request = .connect b ∧ reply = .id id) ∨
      request = .listRooms ∧ ∃ names, reply = .rooms names) :
    ∃ after, node.step? a .reply = some after ∧ after.phase = .running := by
  rcases fits with ⟨b, id, rfl, rfl⟩ | ⟨rfl, names, rfl⟩
  · simp only [Node.step?, waiting, answered, Node.answer, (node.actor.connected_eq (ρ := ρ) id).1]
    exact ⟨_, rfl, rfl⟩
  · obtain ⟨frames, writes⟩ := node.actor.listed_eq (ρ := ρ) names
    simp only [Node.step?, waiting, answered, Node.answer, writes, perform_writes]
    exact ⟨_, rfl, rfl⟩

end Step

namespace State

variable [DecidableEq ρ]

theorem awaits_of_run {history : List (Label ρ)} {state : State ρ}
    (run : (system ρ).run? history = some state) (a : ρ) : (state.node a).Awaits := by
  refine (system ρ).run?_induction (motive := fun _ state => (state.node a).Awaits)
    (awaits_of_phase (by rintro ⟨⟩)) ?_ run
  intro earlier middle label next reached awaits stepped
  cases label with
  | session b input =>
      obtain ⟨after, moved, rfl⟩ := Option.map_eq_some_iff.mp stepped
      by_cases own : a = b
      · subst own
        simpa only [Function.update_self] using awaits_of_step? moved
      · simpa only [Function.update_of_ne own] using awaits
  | serve b draw =>
      obtain ⟨stage, staged, -⟩ := exists_orderly reached
      rcases served_of_serve stepped with
        ⟨head, stopped, -⟩ | @⟨request, rest, out, head, handled, present⟩
      · by_cases own : a = b
        · subst own
          refine awaits_of_phase ?_
          simp only [Function.update_self, stopped]
          rintro ⟨⟩
        · simpa only [Function.update_of_ne own] using awaits
      by_cases own : a = b
      · subst own
        simp only [Function.update_self]
        intro waiting
        have phase : (middle.node a).phase = .waiting .listRooms := waiting
        refine Node.Awaits.served awaits head (fun c connects => ?_) handled waiting
        -- a session that still connects waits for that
        have holds := staged a
        have turns : ∃ next : Stage, next.Holds a ((middle.node a).served rest (.id draw)) ∧
            Serves a draw (stage a) request next := serves_of_outbox holds head present fun _ => rfl
        obtain ⟨after, -, serves⟩ := turns
        rw [connects] at serves
        generalize stage a = before at holds serves
        cases serves with
        | connect => cases holds.2.1.symm.trans phase
        | late unknown => rcases holds.2 with ⟨told, -⟩ | ⟨told, -⟩ <;> cases told.symm.trans phase
        | lateZero zero => rcases holds.2 with ⟨told, -⟩ | ⟨told, -⟩ <;> cases told.symm.trans phase
        | turn turns => cases turns
      · simp only [Function.update_of_ne own]
        exact awaits

/-- Once a waiting session has no request left at the server, its answer is there. -/
theorem answered_of_run {history : List (Label ρ)} {state : State ρ}
    (run : (system ρ).run? history = some state) {a : ρ} {request : Request ρ}
    (waiting : (state.node a).phase = .waiting request) (handled : (state.node a).outbox = []) :
    ∃ after, (state.node a).step? a .reply = some after ∧ after.phase = .running := by
  obtain ⟨stage, staged, -⟩ := exists_orderly run
  have holds := staged a
  generalize stage a = here at holds
  cases here with
  | idle => cases holds.1.symm.trans waiting
  | connecting => cases holds.2.2.1.symm.trans handled
  | abandoned => rcases holds.2 with ⟨told, -⟩ | ⟨told, -⟩ <;> cases told.symm.trans waiting
  | answered id =>
      cases holds.2.1.symm.trans waiting
      exact running_of_answer waiting holds.2.2.2 (Or.inl ⟨a, id, rfl, rfl⟩)
  | opened id view =>
      obtain ⟨last, -, ends⟩ := Opened.queue holds
      rw [Node.Ends, waiting] at ends
      cases request with
      | listRooms =>
          rcases awaits_of_run run a waiting with ⟨queue, outbox⟩ | ⟨names, answered⟩
          · rw [handled] at outbox
            cases queue <;> cases outbox
          · exact running_of_answer waiting answered (Or.inr ⟨rfl, names, rfl⟩)
      | _ => exact ends.elim
  | lost id => rcases holds.2 with ⟨told, -⟩ | ⟨told, -⟩ <;> cases told.symm.trans waiting

/--
No session waits in vain.  In every reachable state, when a session waits for
the server, the server can handle all that the session has sent, whatever
numbers it draws, and then the answer arrives and the session is running.
-/
theorem every_wait_ends {history : List (Label ρ)} {state : State ρ}
    (run : (system ρ).run? history = some state) {a : ρ} {request : Request ρ}
    (waiting : (state.node a).phase = .waiting request) {draws : List Nat}
    (enough : draws.length = (state.node a).outbox.length) :
    ∃ next, (system ρ).runFrom? state (draws.map (Label.serve a) ++ [.session a .reply]) =
      some next ∧ (next.node a).phase = .running := by
  induction draws generalizing history state with
  | nil =>
      obtain ⟨after, answered, running⟩ :=
        answered_of_run run waiting (List.eq_nil_of_length_eq_zero enough.symm)
      refine ⟨{ state with node := Function.update state.node a after }, ?_, ?_⟩
      · have moved : state.step? (.session a .reply) =
            some { state with node := Function.update state.node a after } :=
          Option.map_eq_some_iff.mpr ⟨after, answered, rfl⟩
        rw [List.map_nil, List.nil_append, System.runFrom?]
        exact congrArg (·.bind some) moved
      · simpa only [Function.update_self] using running
  | cons draw draws ih =>
      obtain ⟨stage, -, orderly⟩ := exists_orderly run
      cases outbox : (state.node a).outbox with
      | nil =>
          rw [outbox] at enough
          cases enough
      | cons first rest =>
          obtain ⟨out, handled⟩ :=
            ChatServer.handle_isSome (ChatServer.main_mem_rooms orderly.run) draw first
          have going : (state.node a).phase ≠ .stopped := by
            rw [waiting]
            rintro ⟨⟩
          have served : state.step? (.serve a draw) = _ := serve_of_not_stopped outbox going handled
          generalize middleEq : State.mk _ _ _ = middle at served
          have same : (middle.node a).phase = (state.node a).phase ∧
              (middle.node a).outbox = rest := by
            subst middleEq
            simp [Node.receive, Node.served]
          have reached : (system ρ).run? (history ++ [.serve a draw]) = some middle := by
            rw [(system ρ).run?_snoc, run]
            exact served
          obtain ⟨next, further, running⟩ := ih reached (same.1.trans waiting) (by
            rw [same.2]
            rw [outbox] at enough
            exact Nat.succ.inj enough)
          refine ⟨next, ?_, running⟩
          rw [List.map_cons, List.cons_append, System.runFrom?]
          change (state.step? (.serve a draw)).bind _ = _
          rw [served]
          exact further

/-- A session asks for the rooms after a message that the server has not handled. -/
theorem every_wait_ends_list :
    ∃ state next, (system Nat).run? [.session 1 (.start .tcp 0), .serve 1 5, .session 1 .reply,
        .session 1 (.request (.message "hi") 1), .session 1 (.request .list 2)] = some state ∧
      (system Nat).runFrom? state [.serve 1 0, .serve 1 0, .session 1 .reply] = some next ∧
      (next.node 1).phase = .running := by
  obtain ⟨next, further, running⟩ := @every_wait_ends Nat _ [.session 1 (.start .tcp 0),
    .serve 1 5, .session 1 .reply, .session 1 (.request (.message "hi") 1),
    .session 1 (.request .list 2)] _ rfl 1 .listRooms rfl [0, 0] rfl
  exact ⟨_, next, rfl, further, running⟩

/-! ## Drained sessions -/

end State

/-- The session is running, and the server has handled all that it sent. -/
def Node.Drained (node : Node ρ) : Prop := node.phase = .running ∧ node.outbox = []

theorem sends_message {a : ρ} {node after : Node ρ} {input : Input} {text : String}
    (unnamed : node.Unnamed) (stepped : node.step? a input = some after)
    (spoken : input.message? = some text) :
    after = { node with outbox := node.outbox ++ [.message node.actor.id text node.actor.room] } := by
  cases Node.stepped_of_step? stepped with
  | @request session running actor request now =>
      obtain ⟨_, _, _, _, _, _⟩ := node
      cases actor
      cases request with
      | message said =>
          cases spoken
          rfl
      | _ => cases spoken
  | @frame session running actor message now =>
      have name := unnamed session actor
      obtain ⟨_, _, _, _, _, _⟩ := node
      cases actor
      cases message with
      | text said =>
          cases spoken
          simp only [WsChatSession.handle, WsChatSession.relayed, name]
          rfl
      | binary =>
          cases spoken
          rfl
      | _ => cases spoken
  | _ => cases spoken

namespace State

variable [DecidableEq ρ]

theorem rooms_agree {history : List (Label ρ)} {state : State ρ}
    (run : (system ρ).run? history = some state) (distinct : (draws state.handled).Nodup)
    (nonzero : 0 ∉ draws state.handled) {a : ρ} (drained : (state.node a).Drained) :
    state.server.Placed (state.node a).actor.id a (state.node a).actor.room := by
  obtain ⟨stage, staged, -, located⟩ := exists_located run
  have holds := staged a
  obtain ⟨running, outbox⟩ := drained
  refine located distinct nonzero a _ _ ?_
  cases here : stage a with
  | opened id view =>
      rw [here] at holds
      obtain ⟨last, follows, ends⟩ := Opened.queue holds
      rw [outbox] at follows
      rw [Node.Ends, running] at ends
      rw [follows.eq_of_nil, ends, Opened.id_eq holds]
      rfl
  | idle =>
      rw [here] at holds
      cases holds.1.symm.trans running
  | connecting =>
      rw [here] at holds
      cases holds.2.1.symm.trans running
  | answered id =>
      rw [here] at holds
      cases holds.2.1.symm.trans running
  | abandoned =>
      rw [here] at holds
      rcases holds.2 with ⟨told, -⟩ | ⟨told, -⟩ <;> cases told.symm.trans running
  | lost id =>
      rw [here] at holds
      rcases holds.2 with ⟨told, -⟩ | ⟨told, -⟩ <;> cases told.symm.trans running

theorem textsFor_eq {sent : List (ρ × String)} {text : String} {chosen : ρ → Prop}
    (delivers : ChatServer.DeliversOnce sent text chosen) {b : ρ} {q : Prop} [Decidable q]
    (here : chosen b ↔ q) : textsFor b sent = if q then [text] else [] := by
  have reached : ∀ other, other ∈ textsFor b sent ↔ other = text ∧ q := by
    intro other
    rw [← here, ← delivers.mem_iff]
    refine ⟨mem_of_textsFor, fun among => ?_⟩
    exact List.mem_filterMap.mpr ⟨(b, other), among, if_pos rfl⟩
  rcases List.sublist_singleton.mp (textsFor_sublist delivers b) with none | one
  · rw [if_neg, none]
    intro inside
    have received := (reached text).mpr ⟨rfl, inside⟩
    rw [none] at received
    cases received
  · rw [if_pos, one]
    exact ((reached text).mp (one ▸ List.mem_cons_self)).2

/--
Rooms.  When a drained session says something and the server handles it, each
other drained session gets the message once if both believe to be in the same
room, and otherwise gets nothing; the one who spoke gets nothing.
-/
theorem message_heard_iff {history : List (Label ρ)} {state middle next : State ρ}
    (run : (system ρ).run? history = some state) (distinct : (draws state.handled).Nodup)
    (nonzero : 0 ∉ draws state.handled) {a b : ρ} (speaker : (state.node a).Drained)
    (listener : (state.node b).Drained) {input : Input} {text : String}
    (spoken : input.message? = some text) (sent : state.step? (.session a input) = some middle)
    {draw : Nat} (served : middle.step? (.serve a draw) = some next) :
    (next.node b).inbox = (state.node b).inbox ++
      if b ≠ a ∧ (state.node b).actor.room = (state.node a).actor.room then [text] else [] := by
  have here := rooms_agree run distinct nonzero speaker
  have there := rooms_agree run distinct nonzero listener
  obtain ⟨stage, -, orderly⟩ := exists_orderly run
  have unambiguous := orderly.recipientsDistinct
  obtain ⟨after, moved, rfl⟩ := Option.map_eq_some_iff.mp sent
  have written := sends_message ((sends_of_run run).unnamed a) moved spoken
  have outbox : after.outbox = [.message (state.node a).actor.id text (state.node a).actor.room] := by
    rw [written]
    simp only [speaker.2, List.nil_append]
  have inbox : (Function.update state.node a after b).inbox = (state.node b).inbox := by
    by_cases own : b = a
    · subst own
      rw [Function.update_self, written]
    · rw [Function.update_of_ne own]
  simp only [step?, serve, Function.update_self, outbox, Node.skips, if_neg Bool.false_ne_true,
    ChatServer.handle, Option.map_some, Option.some.injEq] at served
  subst served
  have delivers := ChatServer.sendMessage_deliversOnce unambiguous (state.node a).actor.room text
    (state.node a).actor.id
  have chosen : (∃ id, id ≠ (state.node a).actor.id ∧
      state.server.Member id (state.node a).actor.room ∧ state.server.sessions.lookup id = some b) ↔
        b ≠ a ∧ (state.node b).actor.room = (state.node a).actor.room := by
    constructor
    · rintro ⟨id, apart, inside, registered⟩
      have same := unambiguous id _ b registered there.registered
      refine ⟨?_, ?_⟩
      · rintro rfl
        exact apart same
      · rw [same] at inside
        exact ((there.room_iff _).mp inside).symm
    · rintro ⟨apart, together⟩
      refine ⟨(state.node b).actor.id, ?_, ?_, there.registered⟩
      · intro same
        rw [same] at there
        exact apart (Option.some.inj (there.registered.symm.trans here.registered))
      · rw [← together]
        exact (there.room_iff _).mpr rfl
  rw [← textsFor_eq delivers chosen, ← inbox]
  by_cases own : b = a
  · subst own
    simp [Node.receive, Node.served, ChatServer.handleMessage]
  · simp [Node.receive, ChatServer.handleMessage, Function.update_of_ne own]

/-- Two sessions are in "Main", and one of them speaks. -/
theorem message_heard_iff_main :
    ∃ state middle next, (system Nat).run? (twoSessions ++ [.serve 1 0]) = some state ∧
      state.step? (.session 2 (.frame (.text " ho ") 2)) = some middle ∧
      middle.step? (.serve 2 0) = some next ∧ (next.node 1).inbox = ["Someone joined", "ho"] := by
  have heard := @message_heard_iff Nat _ (twoSessions ++ [.serve 1 0]) _ _ _ rfl (by decide)
    (by decide) 2 1 ⟨rfl, rfl⟩ ⟨rfl, rfl⟩ (.frame (.text " ho ") 2) "ho" (by decide) rfl 0 rfl
  exact ⟨_, _, _, rfl, rfl, rfl, heard.trans (by decide)⟩

end State

end RustDemo.Chat
