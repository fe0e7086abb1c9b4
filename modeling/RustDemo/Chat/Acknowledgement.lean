import RustDemo.Chat.Announcements
import RustDemo.Chat.Responses

/-!
# What a join acknowledgement says

A session tells its peer that it joined a room as soon as it has sent the join.
The texts that were already on their way to it, and those that the server sends
until it comes to the join, are shown after that.  Two queues in opposite
directions are compared here by counting: the joins handled when a text was
sent, and the joins told when it is shown.
-/

namespace RustDemo.Chat

open RustDemo.Transition

variable {ρ : Type}

/-- The texts of the server that the peer was shown. -/
def shown (written : List Frame) : List String :=
  written.filterMap fun frame =>
    match frame with
    | .response (.message text) => some text
    | .text text => some text
    | _ => none

def joined (written : List Frame) : List String :=
  written.filterMap fun frame =>
    match frame with
    | .response (.joined name) => some name
    | _ => none

def joinsOf (requests : List (Request ρ)) : List String :=
  requests.filterMap fun request =>
    match request with
    | .join _ name => some name
    | _ => none

theorem shown_append (first second : List Frame) :
    shown (first ++ second) = shown first ++ shown second :=
  List.filterMap_append

theorem joined_append (first second : List Frame) :
    joined (first ++ second) = joined first ++ joined second :=
  List.filterMap_append

theorem joinsOf_append (first second : List (Request ρ)) :
    joinsOf (first ++ second) = joinsOf first ++ joinsOf second :=
  List.filterMap_append

section Record

variable [DecidableEq ρ]

def joinsBy (a : ρ) (handled : List (Handled ρ)) : List String :=
  joinsOf ((handled.filter fun entry => entry.sender = a).map Handled.request)

/-- The texts sent to a session, each with the place of the request that caused it. -/
def deliveries (a : ρ) (handled : List (Handled ρ)) : List (Nat × String) :=
  handled.zipIdx.flatMap fun entry =>
    (State.textsFor a entry.1.sent).map fun text => (entry.2, text)

theorem joinsBy_snoc_self (a : ρ) (draw : Nat) (request : Request ρ) (sent : List (ρ × String))
    (handled : List (Handled ρ)) :
    joinsBy a (handled ++ [⟨a, draw, request, sent⟩]) = joinsBy a handled ++ joinsOf [request] := by
  simp [joinsBy, joinsOf_append]

theorem joinsBy_snoc_other {a b : ρ} (other : b ≠ a) (draw : Nat) (request : Request ρ)
    (sent : List (ρ × String)) (handled : List (Handled ρ)) :
    joinsBy b (handled ++ [⟨a, draw, request, sent⟩]) = joinsBy b handled := by
  simp [joinsBy, Ne.symm other]

theorem joinsBy_take_initial (a : ρ) (handled : List (Handled ρ)) (i : Nat) :
    joinsBy a (handled.take i) <+: joinsBy a handled :=
  ((( List.take_prefix i handled).filter _).map Handled.request).filterMap _

theorem deliveries_snoc (a : ρ) (handled : List (Handled ρ)) (entry : Handled ρ) :
    deliveries a (handled ++ [entry]) = deliveries a handled ++
      (State.textsFor a entry.sent).map fun text => (handled.length, text) := by
  simp [deliveries, List.zipIdx_append]

theorem mem_deliveries {a : ρ} {handled : List (Handled ρ)} {i : Nat} {text : String}
    (delivered : (i, text) ∈ deliveries a handled) : i < handled.length := by
  obtain ⟨⟨entry, j⟩, there, listed⟩ := List.mem_flatMap.mp delivered
  obtain ⟨_, _, same⟩ := List.mem_map.mp listed
  cases same
  exact List.snd_lt_of_mem_zipIdx there

end Record

/-- All that a step can do to what is counted. -/
inductive Advances (node after : Node ρ) : Prop where
  | quiet {frames : List Frame} {requests : List (Request ρ)}
      (written : after.written = node.written ++ frames) (nothing : shown frames = [])
      (untold : joined frames = []) (outbox : after.outbox = node.outbox ++ requests)
      (unasked : joinsOf requests = []) (inbox : after.inbox = node.inbox)
  | shows {text : String} {frame : Frame} (head : node.inbox = text :: after.inbox)
      (written : after.written = node.written ++ [frame]) (shows : shown [frame] = [text])
      (untold : joined [frame] = []) (outbox : after.outbox = node.outbox)
  | joins {id : Nat} {name : String}
      (written : after.written = node.written ++ [.response (.joined name)])
      (outbox : after.outbox = node.outbox ++ [.join id name]) (inbox : after.inbox = node.inbox)

section Step

variable {a : ρ} {node after : Node ρ}

theorem Advances.unwritten {requests : List (Request ρ)} (written : after.written = node.written)
    (outbox : after.outbox = node.outbox ++ requests) (unasked : joinsOf requests = [])
    (inbox : after.inbox = node.inbox) : Advances node after := by
  have nothing : after.written = node.written ++ [] := by rw [written, List.append_nil]
  exact .quiet nothing rfl rfl outbox unasked inbox

theorem Advances.unsent {frames : List Frame} (written : after.written = node.written ++ frames)
    (nothing : shown frames = []) (untold : joined frames = [])
    (outbox : after.outbox = node.outbox) (inbox : after.inbox = node.inbox) :
    Advances node after := by
  have unasked : after.outbox = node.outbox ++ [] := by rw [outbox, List.append_nil]
  exact .quiet written nothing untold unasked rfl inbox

theorem Advances.still (written : after.written = node.written)
    (outbox : after.outbox = node.outbox) (inbox : after.inbox = node.inbox) :
    Advances node after := by
  have nothing : after.written = node.written ++ [] := by rw [written, List.append_nil]
  exact .unsent nothing rfl rfl outbox inbox

theorem advances_request (session : ChatSession) (now : Nat) (request : ChatRequest) :
    Advances node ({ node with actor := .tcp (session.handle (ρ := ρ) now request).1 }.perform
      (session.handle now request).2) := by
  cases request with
  | list => exact .unwritten rfl rfl rfl rfl
  | join name => exact .joins rfl rfl rfl
  | message message => exact .unwritten rfl rfl rfl rfl
  | ping => exact .still rfl rfl rfl

theorem advances_frame (session : WsChatSession) (now : Nat) (message : WsMessage) :
    Advances node ({ node with actor := .ws (session.handle (ρ := ρ) now message).1 }.perform
      (session.handle now message).2) := by
  cases message with
  | ping bytes => exact .unsent rfl rfl rfl rfl rfl
  | pong => exact .still rfl rfl rfl
  | text text => exact .unwritten rfl rfl rfl rfl
  | binary => exact .unwritten rfl rfl rfl rfl
  | close => exact .still rfl rfl rfl

theorem advances_interval (now : Nat) : Advances node (node.perform (node.actor.interval now)) := by
  obtain ⟨pings, onlyPings, quiet | departs⟩ := node.actor.interval_eq (ρ := ρ) now
  all_goals
    have nothing : shown pings = [] :=
      List.filterMap_eq_nil_iff.mpr fun frame listed => by
        rcases onlyPings frame listed with rfl | rfl <;> rfl
    have untold : joined pings = [] :=
      List.filterMap_eq_nil_iff.mpr fun frame listed => by
        rcases onlyPings frame listed with rfl | rfl <;> rfl
  · rw [quiet, perform_writes]
    exact .unsent rfl nothing untold rfl rfl
  · rw [departs, Node.perform, Node.perform, perform_writes]
    exact .quiet rfl nothing untold rfl rfl rfl

theorem advances_answer {request : Request ρ} {reply : Reply}
    (answer : node.answer request reply = some after) : Advances node after := by
  cases reply with
  | unit => cases request <;> cases answer
  | id id =>
      cases request with
      | connect addr =>
          have quiet := (node.actor.connected_eq (ρ := ρ) id).1
          simp only [Node.answer, quiet, Option.some.injEq] at answer
          subst answer
          exact .still rfl rfl rfl
      | _ => cases answer
  | rooms names =>
      cases request with
      | listRooms =>
          cases answer
          cases actor : node.actor with
          | tcp session => exact .unsent rfl rfl rfl rfl rfl
          | ws session =>
              exact .still rfl rfl rfl
      | _ => cases answer

theorem advances_of_step? {input : Input} (stepped : node.step? a input = some after) :
    Advances node after := by
  cases Node.stepped_of_step? stepped with
  | start idle kind now =>
      cases kind <;> exact .unwritten rfl rfl rfl rfl
  | reply waiting answered answer => exact advances_answer answer
  | @request session running actor request now => exact advances_request session now request
  | @frame session running actor message now => exact advances_frame session now message
  | @deliver text inbox running head =>
      cases actor : node.actor with
      | tcp session => exact .shows head rfl rfl rfl rfl
      | ws session => exact .shows head rfl rfl rfl rfl
  | interval running now => exact advances_interval now
  | finished running =>
      exact .still rfl rfl rfl
  | disconnected actor alive =>
      exact .still rfl rfl rfl
  | stopping told =>
      rw [Actor.stopping_eq]
      exact .unwritten rfl rfl rfl rfl

end Step

/-! ## The two queues -/

variable [DecidableEq ρ]

/--
What was shown and what waits in the inbox is what was delivered, and the rooms
told are those of the joins handled and of the joins in the queue.  When a text
was shown, at least the joins handled before it was sent had been told.
-/
structure Queued (a : ρ) (handled : List (Handled ρ)) (node : Node ρ) : Prop where
  shown_eq : shown node.written ++ node.inbox = (deliveries a handled).map Prod.snd
  joined_eq : joined node.written = joinsBy a handled ++ joinsOf node.outbox
  ordered : ∀ early frame late, node.written = early ++ frame :: late → shown [frame] ≠ [] →
    ∀ i text, (deliveries a handled)[(shown early).length]? = some (i, text) →
      (joinsBy a (handled.take i)).length ≤ (joined early).length

theorem queued_idle (a : ρ) : Queued a [] (Node.idle : Node ρ) where
  shown_eq := rfl
  joined_eq := rfl
  ordered early frame late written := by
    cases early <;> cases written

theorem split_of_silent {written frames early late : List Frame} {frame : Frame}
    (silent : shown frames = []) (shows : shown [frame] ≠ [])
    (split : written ++ frames = early ++ frame :: late) :
    ∃ rest, written = early ++ frame :: rest := by
  have absent : frame ∉ frames := by
    intro listed
    apply shows
    have nothing := List.filterMap_eq_nil_iff.mp silent frame listed
    exact List.filterMap_eq_nil_iff.mpr fun other here => by
      rw [List.mem_singleton.mp here]
      exact nothing
  rcases List.append_eq_append_iff.mp split with ⟨rest, -, ends⟩ | ⟨rest, same, ends⟩
  · exact absurd (ends ▸ List.mem_append_right _ List.mem_cons_self) absent
  · cases rest with
    | nil =>
        have ends : frame :: late = frames := ends
        exact absurd (ends ▸ List.mem_cons_self) absent
    | cons first rest =>
        cases ends
        exact ⟨rest, same⟩

namespace Queued

variable {a b : ρ} {handled : List (Handled ρ)} {node after : Node ρ}

theorem advance (queued : Queued a handled node) (advances : Advances node after) :
    Queued a handled after := by
  cases advances with
  | quiet written nothing untold outbox unasked inbox =>
      constructor
      · rw [written, inbox, shown_append, nothing, List.append_nil]
        exact queued.shown_eq
      · rw [written, outbox, joined_append, joinsOf_append, untold, unasked, List.append_nil,
          List.append_nil]
        exact queued.joined_eq
      · intro early frame late split shows
        rw [written] at split
        obtain ⟨rest, before⟩ := split_of_silent nothing shows split
        exact queued.ordered early frame rest before shows
  | @shows text frame head written shows untold outbox =>
      constructor
      · rw [written, shown_append, shows, List.append_assoc, List.singleton_append, ← head]
        exact queued.shown_eq
      · rw [written, outbox, joined_append, untold, List.append_nil]
        exact queued.joined_eq
      · intro early other late split showsOther i text delivered
        rw [written] at split
        rcases List.eq_nil_or_concat late with rfl | ⟨rest, last, rfl⟩
        · -- the frame just written: all joins handled so far had been told
          have parts := List.append_inj' split rfl
          rw [← parts.1, queued.joined_eq, List.length_append]
          exact Nat.le_add_right_of_le (joinsBy_take_initial a handled i).length_le
        · rw [List.concat_eq_append, ← List.cons_append, ← List.append_assoc] at split
          exact queued.ordered early other rest (List.append_inj' split rfl).1 showsOther i text
            delivered
  | @joins id name written outbox inbox =>
      constructor
      · rw [written, inbox, shown_append]
        exact (congrArg (· ++ node.inbox) (List.append_nil _)).trans queued.shown_eq
      · rw [written, outbox, joined_append, joinsOf_append, queued.joined_eq, List.append_assoc]
        rfl
      · intro early frame late split shows
        rw [written] at split
        have silent : shown [.response (.joined name)] = [] := rfl
        obtain ⟨rest, before⟩ := split_of_silent silent shows split
        exact queued.ordered early frame rest before shows

/-- The server records a request; the texts it caused come in, and nothing is written. -/
theorem record (queued : Queued a handled node) {entry : Handled ρ}
    (written : after.written = node.written)
    (inbox : after.inbox = node.inbox ++ State.textsFor a entry.sent)
    (joins : joinsBy a (handled ++ [entry]) ++ joinsOf after.outbox =
      joinsBy a handled ++ joinsOf node.outbox) : Queued a (handled ++ [entry]) after := by
  constructor
  · rw [written, inbox, ← List.append_assoc, queued.shown_eq, deliveries_snoc, List.map_append,
      List.map_map]
    exact congrArg _ (List.map_id' _).symm
  · rw [written, joins]
    exact queued.joined_eq
  · intro early frame late split shows i text delivered
    rw [written] at split
    -- the text was delivered before the new ones
    have counted : (shown early).length < (deliveries a handled).length := by
      have total := congrArg List.length queued.shown_eq
      have one := List.length_pos_iff.mpr shows
      rw [split, List.append_cons, shown_append, shown_append, List.length_append,
        List.length_append, List.length_append, List.length_map] at total
      omega
    rw [deliveries_snoc, List.getElem?_append_left counted] at delivered
    have earlier := mem_deliveries (List.mem_of_getElem? delivered)
    rw [List.take_append_of_le_length (Nat.le_of_lt earlier)]
    exact queued.ordered early frame late split shows i text delivered

theorem serve (queued : Queued a handled node) {request : Request ρ} {rest : List (Request ρ)}
    (head : node.outbox = request :: rest) (draw : Nat) (reply : Reply) (sent : List (ρ × String)) :
    Queued a (handled ++ [⟨a, draw, request, sent⟩])
      ((node.served rest reply).receive (State.textsFor a sent)) := by
  refine queued.record rfl rfl ?_
  rw [joinsBy_snoc_self, head, List.append_assoc, ← joinsOf_append]
  rfl

theorem other (queued : Queued b handled node) (other : b ≠ a) (draw : Nat) (request : Request ρ)
    (sent : List (ρ × String)) :
    Queued b (handled ++ [⟨a, draw, request, sent⟩]) (node.receive (State.textsFor b sent)) := by
  refine queued.record rfl rfl ?_
  rw [joinsBy_snoc_other other]
  rfl

theorem skip (queued : Queued a handled node) {request : Request ρ} {rest : List (Request ρ)}
    (head : node.outbox = request :: rest)
    (awaited : request = .listRooms ∨ ∃ c, request = .connect c) :
    Queued a handled { node with outbox := rest } := by
  refine ⟨queued.shown_eq, ?_, queued.ordered⟩
  rw [queued.joined_eq, head]
  rcases awaited with rfl | ⟨c, rfl⟩ <;> rfl

end Queued

theorem State.queued_of_run {history : List (Label ρ)} {state : State ρ}
    (run : (system ρ).run? history = some state) (a : ρ) :
    Queued a state.handled (state.node a) := by
  refine (system ρ).invariant (fun state => ∀ a, Queued a state.handled (state.node a)) queued_idle
    ?_ run a
  intro state label next queued stepped b
  cases label with
  | session a input =>
      obtain ⟨node, moved, rfl⟩ := Option.map_eq_some_iff.mp stepped
      rcases eq_or_ne b a with rfl | other
      · simpa using (queued b).advance (advances_of_step? moved)
      · simpa [other] using queued b
  | serve a draw =>
      cases State.served_of_serve stepped with
      | skipped head stopped awaited =>
          rcases eq_or_ne b a with rfl | other
          · simpa using (queued b).skip head awaited
          · simpa [other] using queued b
      | @handled request rest out head handled present =>
          rcases eq_or_ne b a with rfl | other
          · simpa using (queued b).serve head draw out.reply out.sent
          · simpa [other] using (queued b).other other draw request out.sent

omit [DecidableEq ρ] in
theorem Serves.unjoined {a : ρ} {draw : Nat} {stage next : Stage} {request : Request ρ}
    (serves : Serves a draw stage request next) (waiting : next.granted = none) :
    stage.granted = none ∧ joinsOf [request] = [] := by
  cases serves with
  | unheard => exact ⟨rfl, rfl⟩
  | _ => cases waiting

/-- The room of the last join; "Main" before the first. -/
def lastJoined (joins : List String) : String := joins.getLastD "Main"

theorem lastJoined_snoc (joins : List String) (name : String) :
    lastJoined (joins ++ [name]) = name := by
  simp [lastJoined]

/--
A session that is registered is in the room of its last join that was handled,
and it was when something was sent to it, as long as the numbers drawn differ.
-/
structure Seated (state : State ρ) (stage : ρ → Stage) : Prop where
  unjoined : ∀ a, (stage a).granted = none → joinsBy a state.handled = []
  member : (State.draws state.handled).Nodup → ∀ b id, state.server.sessions.lookup id = some b →
    ∀ room, state.server.Member id room ↔ room = lastJoined (joinsBy b state.handled)
  delivered : (State.draws state.handled).Nodup → ∀ b i text,
    (i, text) ∈ deliveries b state.handled →
      ∃ server id, (ChatServer.system ρ).run? (State.requests (state.handled.take i)) = some server ∧
        server.sessions.lookup id = some b ∧
        server.Member id (lastJoined (joinsBy b (state.handled.take i)))

theorem seated_new : Seated (State.new : State ρ) fun _ => .idle where
  unjoined _ _ := rfl
  member _ _ _ registered := by cases registered
  delivered _ _ _ _ delivered := by cases delivered

namespace Seated

variable {state : State ρ} {stage : ρ → Stage} {a : ρ} {draw : Nat} {request : Request ρ}
  {out : Outcome ρ} {next : Stage} {node : ρ → Node ρ}

theorem delivered_snoc (seated : Seated state stage) (orderly : state.Orderly stage)
    (handled : state.server.handle draw request = some out) {entry : Handled ρ}
    (recorded : entry.sent = out.sent)
    (distinct : (State.draws (state.handled ++ [entry])).Nodup) (b : ρ) (i : Nat) (text : String)
    (delivered : (i, text) ∈ deliveries b (state.handled ++ [entry])) :
    ∃ server id, (ChatServer.system ρ).run?
        (State.requests ((state.handled ++ [entry]).take i)) = some server ∧
      server.sessions.lookup id = some b ∧
      server.Member id (lastJoined (joinsBy b ((state.handled ++ [entry]).take i))) := by
  have earlier := distinct.sublist (State.draws_sublist state.handled entry)
  rw [deliveries_snoc] at delivered
  rcases List.mem_append.mp delivered with before | now
  · rw [List.take_append_of_le_length (Nat.le_of_lt (mem_deliveries before))]
    exact seated.delivered earlier b i text before
  · obtain ⟨_, listed, same⟩ := List.mem_map.mp now
    cases same
    obtain ⟨⟨addr, _⟩, sent, chosen⟩ := List.mem_filterMap.mp listed
    dsimp only at chosen
    split at chosen
    · rename_i here
      cases chosen
      subst here
      rw [recorded] at sent
      obtain ⟨id, found⟩ := ChatServer.registered_of_sent handled sent
      rw [List.take_left' rfl]
      exact ⟨state.server, id, orderly.run, found,
        (seated.member earlier addr id found _).mpr rfl⟩
    · cases chosen

/-- The session sits where its last join put it once its next request has been handled. -/
theorem member_serve (seated : Seated state stage) (orderly : state.Orderly stage)
    (handled : state.server.handle draw request = some out)
    (serves : Serves a draw (stage a) request next)
    (distinct : (State.draws (state.handled ++ [⟨a, draw, request, out.sent⟩])).Nodup) (b : ρ)
    (id : Nat) (registered : out.server.sessions.lookup id = some b) (room : String) :
    out.server.Member id room ↔
      room = lastJoined (joinsBy b (state.handled ++ [⟨a, draw, request, out.sent⟩])) := by
  have earlier := distinct.sublist (State.draws_sublist state.handled _)
  rw [ChatServer.lookup_of_handle handled] at registered
  rw [ChatServer.member_of_handle handled]
  -- a request that is no join leaves the joins of everybody as they are
  have unmoved : joinsOf [request] = [] →
      joinsBy b (state.handled ++ [⟨a, draw, request, out.sent⟩]) = joinsBy b state.handled := by
    intro none
    rcases eq_or_ne b a with rfl | other
    · rw [joinsBy_snoc_self, none, List.append_nil]
    · exact joinsBy_snoc_other other draw request out.sent state.handled
  cases request with
  | connect addr =>
      obtain ⟨rfl, waiting, granted⟩ := serves.of_connect
      rw [State.draws_connect] at distinct
      have unused := (orderly.unused (State.fresh_of_nodup distinct).2).2
      rw [unmoved rfl]
      rw [ChatServer.lookupAfter] at registered
      split at registered
      · rename_i drawn
        cases registered
        simp [ChatServer.MemberAfter, drawn, unused, seated.unjoined _ waiting, lastJoined]
      · rename_i other
        simpa [ChatServer.MemberAfter, other] using seated.member earlier b id registered room
  | disconnect gone =>
      rw [unmoved rfl]
      rw [ChatServer.lookupAfter] at registered
      split at registered
      · cases registered
      · rename_i other
        simpa [ChatServer.MemberAfter, other] using seated.member earlier b id registered room
  | message sender msg place =>
      rw [unmoved rfl]
      exact seated.member earlier b id registered room
  | listRooms =>
      rw [unmoved rfl]
      exact seated.member earlier b id registered room
  | join joiner name =>
      obtain ⟨old, opened, -⟩ := serves.of_join
      have mine : (stage a).granted = some joiner := congrArg Stage.granted opened
      have given := orderly.recipients id b registered
      by_cases same : id = joiner
      · subst same
        have own := orderly.unique earlier b a id given mine
        subst own
        rw [joinsBy_snoc_self]
        change _ ↔ room = lastJoined (joinsBy b state.handled ++ [name])
        rw [lastJoined_snoc]
        simp [ChatServer.MemberAfter]
      · have other : b ≠ a := by
          rintro rfl
          exact same (Option.some.inj (given.symm.trans mine))
        rw [joinsBy_snoc_other other]
        simpa [ChatServer.MemberAfter, same] using seated.member earlier b id registered room

theorem step (seated : Seated state stage) (orderly : state.Orderly stage) {label : Label ρ}
    {after : State ρ} {nextStage : ρ → Stage}
    (progress : Progress state stage label after nextStage) : Seated after nextStage := by
  cases progress with
  | session moves =>
      refine ⟨fun b waiting => seated.unjoined b ?_, seated.member, seated.delivered⟩
      rw [State.granted_update_of_eq moves.granted_eq] at waiting
      exact waiting
  | @serve a draw request rest out next node head handled present serves =>
      refine ⟨?_, fun distinct => seated.member_serve orderly handled serves distinct,
        fun distinct => seated.delivered_snoc orderly handled rfl distinct⟩
      intro b waiting
      rcases eq_or_ne b a with rfl | other
      · rw [Function.update_self] at waiting
        obtain ⟨before, none⟩ := serves.unjoined waiting
        rw [joinsBy_snoc_self, none, seated.unjoined b before, List.append_nil]
      · rw [Function.update_of_ne other] at waiting
        rw [joinsBy_snoc_other other]
        exact seated.unjoined b waiting
  | skip => exact ⟨seated.unjoined, seated.member, seated.delivered⟩

end Seated

namespace State

theorem exists_seated {history : List (Label ρ)} {state : State ρ}
    (run : (system ρ).run? history = some state) : ∃ stage, Seated state stage := by
  obtain ⟨stage, -, -, seated⟩ := exists_staged
    (fun state stage => state.Orderly stage ∧ Seated state stage) ⟨orderly_new, seated_new⟩
    (fun _ _ _ _ _ _ both _ progress => ⟨both.1.step progress, both.2.step both.1 progress⟩) run
    ((system ρ).meets_true history)
  exact ⟨stage, seated⟩

/-- The session was a member of the room when the server came to this request. -/
def InRoomAt (state : State ρ) (a : ρ) (i : Nat) (room : String) : Prop :=
  ∃ server id, (ChatServer.system ρ).run? (requests (state.handled.take i)) = some server ∧
    server.sessions.lookup id = some a ∧ server.Member id room

/--
The join acknowledgement.  A text that a session shows after it wrote that it
joined a room, and before it handles another join, was sent while it was a
member of that room, or before the server had come to that join, as long as the
numbers drawn differ.
-/
theorem join_acknowledged {history : List (Label ρ)} {state : State ρ}
    (run : (system ρ).run? history = some state) (distinct : (draws state.handled).Nodup) {a : ρ}
    {early mid late : List Frame} {room text : String}
    (written : (state.node a).written = early ++ .response (.joined room) ::
      (mid ++ .response (.message text) :: late))
    (last : ∀ name, .response (.joined name) ∉ mid) :
    ∃ i, (deliveries a state.handled)[(shown (early ++ mid)).length]? = some (i, text) ∧
      (state.InRoomAt a i room ∨
        (joinsBy a (state.handled.take i)).length ≤ (joined early).length) := by
  have queued := queued_of_run run a
  obtain ⟨stage, seated⟩ := exists_seated run
  have split : (state.node a).written =
      (early ++ .response (.joined room) :: mid) ++ .response (.message text) :: late := by
    rw [written, List.append_assoc, List.cons_append]
  have place : shown (early ++ .response (.joined room) :: mid) = shown (early ++ mid) := by
    rw [shown_append, shown_append]
    rfl
  have untold : joined mid = [] := by
    refine List.filterMap_eq_nil_iff.mpr fun frame listed => ?_
    split
    · exact absurd listed (last _)
    · rfl
  have told : joined (early ++ .response (.joined room) :: mid) = joined early ++ [room] := by
    have here : joined (.response (.joined room) :: mid) = room :: joined mid := rfl
    rw [joined_append, here, untold]
  -- the text shown there is the one delivered in the same place
  have text : ((deliveries a state.handled).map Prod.snd)[(shown (early ++ mid)).length]? =
      some text := by
    have shows : shown (.response (.message text) :: late) = text :: shown late := rfl
    rw [← queued.shown_eq, split, shown_append, place, shows, List.append_assoc,
      List.getElem?_append_right (Nat.le_refl _), Nat.sub_self]
    rfl
  rw [List.getElem?_map] at text
  obtain ⟨⟨i, _⟩, delivered, rfl⟩ := Option.map_eq_some_iff.mp text
  refine ⟨i, delivered, ?_⟩
  have counted := queued.ordered _ _ late split nofun i _ (place ▸ delivered)
  rw [told, List.length_append] at counted
  by_cases waits : (joinsBy a (state.handled.take i)).length ≤ (joined early).length
  · exact Or.inr waits
  · left
    have total : joinsBy a (state.handled.take i) <+: joined early ++ [room] := by
      have handledFirst : joinsBy a (state.handled.take i) <+: joined (state.node a).written := by
        rw [queued.joined_eq]
        exact (joinsBy_take_initial a state.handled i).trans (List.prefix_append _ _)
      rw [split, joined_append, told] at handledFirst
      exact List.prefix_of_prefix_length_le handledFirst (List.prefix_append _ _) (by simpa using counted)
    have all : joinsBy a (state.handled.take i) = joined early ++ [room] :=
      total.eq_of_length_le (by rw [List.length_append, List.length_singleton]; omega)
    obtain ⟨server, id, reached, registered, inside⟩ := seated.delivered distinct a i _
      (List.mem_of_getElem? delivered)
    rw [all, lastJoined_snoc] at inside
    exact ⟨server, id, reached, registered, inside⟩

/-- A text of "Main" is on its way to a session that joins another room. -/
def overtaken : List (Label Nat) :=
  [.session 1 (.start .tcp 0), .serve 1 5, .session 1 .reply,
    .session 2 (.start .tcp 0), .serve 2 6,
    .session 1 (.request (.join "Attic") 1), .session 1 .deliver]

theorem join_acknowledged_overtaken :
    ∃ state, (system Nat).run? overtaken = some state ∧
      (state.node 1).written =
        [.response (.joined "Attic"), .response (.message "Someone joined")] ∧
      ∃ i, (deliveries 1 state.handled)[0]? = some (i, "Someone joined") ∧
        (state.InRoomAt 1 i "Attic" ∨ (joinsBy 1 (state.handled.take i)).length ≤ 0) :=
  ⟨_, rfl, rfl, @join_acknowledged Nat _ overtaken _ rfl (by decide) 1 [] [] [] "Attic"
    "Someone joined" rfl nofun⟩

/-- Two sessions were given the id 5, and the join of one takes it out of the room of the other. -/
def sharedId : List (Label Nat) :=
  [.session 1 (.start .tcp 0), .serve 1 5, .session 1 .reply,
    .session 2 (.start .tcp 0), .serve 2 5, .session 2 .reply,
    .session 2 (.request (.join "Attic") 1), .serve 2 0,
    .session 1 (.request (.join "Kitchen") 1), .serve 1 0,
    .session 3 (.start .tcp 0), .serve 3 6, .session 3 .reply,
    .session 3 (.request (.join "Kitchen") 1), .serve 3 0, .session 2 .deliver]

/--
A text from outside the room is shown after the acknowledgement: one that was on
its way already, and, where a number is drawn twice, one that was sent after the
join had been handled.
-/
theorem text_from_outside_shown :
    (∃ state, (system Nat).run? overtaken = some state ∧
      (state.node 1).written =
        [.response (.joined "Attic"), .response (.message "Someone joined")] ∧
      deliveries 1 state.handled = [(1, "Someone joined")] ∧ ¬ state.InRoomAt 1 1 "Attic") ∧
    ∃ state, (system Nat).run? sharedId = some state ∧
      (state.node 2).written =
        [.response (.joined "Attic"), .response (.message "Someone connected")] ∧
      deliveries 2 state.handled = [(5, "Someone connected")] ∧
      joinsBy 2 (state.handled.take 5) = ["Attic"] ∧ ¬ state.InRoomAt 2 5 "Attic" := by
  constructor
  · refine ⟨_, rfl, rfl, rfl, ?_⟩
    rintro ⟨server, id, reached, -, inside⟩
    cases reached
    exact ChatServer.not_member_of_lookup_none rfl id inside
  · refine ⟨_, rfl, rfl, rfl, rfl, ?_⟩
    rintro ⟨server, id, reached, -, inside⟩
    cases reached
    have nobody := (@ChatServer.member_iff_of_lookup _ _ _ ∅ rfl id).mp inside
    exact AList.notMem_empty id nobody

end State

end RustDemo.Chat
