import RustDemo.Chat.System

/-!
# The protocol of one session

What the server can tell about a session is a stage: whether its connection is
still on its way, which id it was given, and, once it is open, the room it is in
as far as the requests handled so far say.  `Stage.Holds` ties the stage to the
actor and its queue, and every step of the session or of the server on its
queue moves from stage to stage.
-/

namespace RustDemo.Chat

variable {ρ : Type}

/--
What a request of the session with this id makes of the server's view of it:
the room it is in, or nothing once it has left.  A message names the room of
the view.
-/
inductive Turns (id : Nat) : Option String → Request ρ → Option String → Prop where
  | message (room msg : String) : Turns id (some room) (.message id msg room) (some room)
  | listRooms (room : String) : Turns id (some room) .listRooms (some room)
  | join (room name : String) : Turns id (some room) (.join id name) (some name)
  | disconnect (view : Option String) : Turns id view (.disconnect id) none

inductive Follows (id : Nat) : Option String → List (Request ρ) → Option String → Prop where
  | nil (view : Option String) : Follows id view [] view
  | cons {view next last : Option String} {request : Request ρ} {queue : List (Request ρ)}
      (turns : Turns id view request next) (later : Follows id next queue last) :
      Follows id view (request :: queue) last

theorem Follows.snoc {id : Nat} {view last next : Option String} {queue : List (Request ρ)}
    {request : Request ρ} (follows : Follows id view queue last)
    (turns : Turns id last request next) : Follows id view (queue ++ [request]) next := by
  induction follows with
  | nil view => exact .cons turns (.nil next)
  | cons here later ih => exact .cons here (ih turns)

theorem Follows.eq_of_nil {id : Nat} {view last : Option String}
    (follows : Follows (ρ := ρ) id view [] last) : view = last := by
  cases follows
  rfl

/-- The view that the last request of the queue leads to, by the phase of the actor. -/
def Node.Ends (node : Node ρ) (last : Option String) : Prop :=
  match node.phase with
  | .running | .waiting .listRooms => last = some node.actor.room
  | .stopping => last = some node.actor.room ∨ last = none
  | .stopped => last = none
  | _ => False

/-- The session knows its id, and its queue leads from the server's view to its own. -/
structure Opened (id : Nat) (view : Option String) (node : Node ρ) : Prop where
  id_eq : node.actor.id = id
  queue : ∃ last, Follows id view node.outbox last ∧ node.Ends last

inductive Stage where
  | idle
  | connecting
  /-- Told to stop before its connection was handled. -/
  | abandoned
  | answered (id : Nat)
  | opened (id : Nat) (view : Option String)
  /-- Stopped without knowing the id it was given. -/
  | lost (id : Nat)

def Stage.granted : Stage → Option Nat
  | answered id | opened id _ | lost id => some id
  | idle | connecting | abandoned => none

def Stage.seat : Stage → Option (Nat × String)
  | answered id => some (id, "Main")
  | opened id (some room) => some (id, room)
  | _ => none

theorem Stage.granted_of_seat {stage : Stage} {id : Nat} {room : String}
    (seated : stage.seat = some (id, room)) : stage.granted = some id := by
  cases stage with
  | answered given =>
      cases seated
      rfl
  | opened given view =>
      cases view with
      | none => cases seated
      | some held =>
          cases seated
          rfl
  | _ => cases seated

def Node.Fresh (node : Node ρ) : Prop := node.actor.id = 0 ∧ node.actor.room = "Main"

def Stage.Holds (a : ρ) (node : Node ρ) : Stage → Prop
  | idle => node.phase = .idle ∧ node.outbox = [] ∧ node.reply = none
  | connecting => node.Fresh ∧ node.phase = .waiting (.connect a) ∧
      node.outbox = [.connect a] ∧ node.reply = none
  | abandoned => node.Fresh ∧
      (node.phase = .stopping ∧ node.outbox = [.connect a] ∨
        node.phase = .stopped ∧ (node.outbox = [.connect a, .disconnect 0] ∨
          ∀ request ∈ node.outbox, request = .disconnect 0))
  | answered id => node.Fresh ∧ node.phase = .waiting (.connect a) ∧
      node.outbox = [] ∧ node.reply = some (.id id)
  | opened id view => Opened id view node
  | lost _ => node.Fresh ∧
      (node.phase = .stopping ∧ node.outbox = [] ∨
        node.phase = .stopped ∧ ∀ request ∈ node.outbox, request = .disconnect 0)

/-- What a step of the session can make of its stage. -/
inductive Moves (input : Input) : Stage → Stage → Prop where
  | stay (stage : Stage) : Moves input stage stage
  | start : Moves input .idle .connecting
  | abandon : Moves input .connecting .abandoned
  | learn (id : Nat) : Moves input (.answered id) (.opened id (some "Main"))
  | lose {id : Nat} (unknown : id ≠ 0) (gone : input = .disconnected) :
      Moves input (.answered id) (.lost id)

/-- What the server makes of the stage by handling the next request of the session. -/
inductive Serves (a : ρ) (draw : Nat) : Stage → Request ρ → Stage → Prop where
  | connect : Serves a draw .connecting (.connect a) (.answered draw)
  | late (unknown : draw ≠ 0) : Serves a draw .abandoned (.connect a) (.lost draw)
  | lateZero (zero : draw = 0) : Serves a draw .abandoned (.connect a) (.opened 0 (some "Main"))
  | turn {id : Nat} {view next : Option String} {request : Request ρ}
      (turns : Turns id view request next) : Serves a draw (.opened id view) request (.opened id next)
  | stray (id : Nat) : Serves a draw (.lost id) (.disconnect 0) (.lost id)
  | unheard : Serves a draw .abandoned (.disconnect 0) .abandoned

/-! ## Steps of the session -/

section Session

variable {a : ρ} {node after : Node ρ} {input : Input}

theorem moves_idle (holds : Stage.Holds a node .idle) (stepped : node.step? a input = some after) :
    ∃ next : Stage, next.Holds a after ∧ Moves input .idle next := by
  obtain ⟨phase, outbox, reply⟩ := holds
  cases input with
  | start kind now =>
      simp only [Node.step?, phase, Option.some.injEq] at stepped
      subst stepped
      refine ⟨.connecting, ?_, .start⟩
      cases kind <;> exact ⟨⟨rfl, rfl⟩, rfl, congrArg (· ++ [_]) outbox, reply⟩
  | _ => simp [Node.step?, phase] at stepped

theorem moves_connecting (holds : Stage.Holds a node .connecting)
    (stepped : node.step? a input = some after) :
    ∃ next : Stage, next.Holds a after ∧ Moves input .connecting next := by
  obtain ⟨fresh, phase, outbox, reply⟩ := holds
  cases input with
  | disconnected =>
      cases actor : node.actor with
      | tcp session => simp [Node.step?, phase, actor] at stepped
      | ws session =>
          simp only [Node.step?, phase, actor, Option.some.injEq] at stepped
          subst stepped
          exact ⟨.abandoned, ⟨actor ▸ fresh, Or.inl ⟨rfl, outbox⟩⟩, .abandon⟩
  | _ => simp [Node.step?, phase, reply] at stepped

theorem moves_abandoned (holds : Stage.Holds a node .abandoned)
    (stepped : node.step? a input = some after) :
    ∃ next : Stage, next.Holds a after ∧ Moves input .abandoned next := by
  obtain ⟨fresh, ⟨phase, outbox⟩ | ⟨phase, outbox⟩⟩ := holds
  · cases input with
    | stopping =>
        simp only [Node.step?, phase, Option.some.injEq, Actor.stopping_eq] at stepped
        subst stepped
        refine ⟨.abandoned, ⟨fresh, Or.inr ⟨rfl, Or.inl ?_⟩⟩, .stay _⟩
        simp [Node.perform, outbox, fresh.1]
    | _ => simp [Node.step?, phase] at stepped
  · cases input <;> simp [Node.step?, phase] at stepped

theorem moves_answered {id : Nat} (holds : Stage.Holds a node (.answered id))
    (stepped : node.step? a input = some after) :
    ∃ next : Stage, next.Holds a after ∧ Moves input (.answered id) next := by
  obtain ⟨fresh, phase, outbox, reply⟩ := holds
  cases input with
  | reply =>
      obtain ⟨quiet, named, room⟩ := node.actor.connected_eq (ρ := ρ) id
      simp only [Node.step?, phase, reply, Node.answer, quiet, Option.some.injEq] at stepped
      subst stepped
      refine ⟨.opened id (some "Main"), ⟨named, some "Main", ?_, ?_⟩, .learn id⟩
      · change Follows id (some "Main") node.outbox (some "Main")
        rw [outbox]
        exact .nil _
      · exact congrArg some (fresh.2.symm.trans room.symm)
  | disconnected =>
      cases actor : node.actor with
      | tcp session => simp [Node.step?, phase, actor] at stepped
      | ws session =>
          simp only [Node.step?, phase, actor, Option.some.injEq] at stepped
          subst stepped
          have same : (Actor.ws session).id = 0 ∧ (Actor.ws session).room = "Main" := actor ▸ fresh
          by_cases known : id = 0
          · -- the id it was given happens to be the one it has
            subst known
            refine ⟨.opened 0 (some "Main"), ⟨same.1, some "Main", ?_, Or.inl ?_⟩, .learn 0⟩
            · change Follows 0 (some "Main") node.outbox (some "Main")
              rw [outbox]
              exact .nil _
            · exact congrArg some same.2.symm
          · exact ⟨.lost id, ⟨same, Or.inl ⟨rfl, outbox⟩⟩, .lose known rfl⟩
  | _ => simp [Node.step?, phase] at stepped

theorem moves_lost {id : Nat} (holds : Stage.Holds a node (.lost id))
    (stepped : node.step? a input = some after) :
    ∃ next : Stage, next.Holds a after ∧ Moves input (.lost id) next := by
  obtain ⟨fresh, ⟨phase, outbox⟩ | ⟨phase, outbox⟩⟩ := holds
  · cases input with
    | stopping =>
        simp only [Node.step?, phase, Option.some.injEq, Actor.stopping_eq] at stepped
        subst stepped
        refine ⟨.lost id, ⟨fresh, Or.inr ⟨rfl, ?_⟩⟩, .stay _⟩
        simp [Node.perform, outbox, fresh.1]
    | _ => simp [Node.step?, phase] at stepped
  · cases input <;> simp [Node.step?, phase] at stepped

/-! ### An open session -/

theorem perform_writes (node : Node ρ) (frames : List Frame) :
    node.perform (frames.map .write) = { node with written := node.written ++ frames } := by
  induction frames generalizing node with
  | nil => simp [Node.perform]
  | cons frame frames ih =>
      rw [List.map_cons, Node.perform, ih, List.append_assoc]
      rfl

namespace Opened

variable {id : Nat} {view : Option String}

theorem quiet (opened : Opened id view node) (named : after.actor.id = node.actor.id)
    (outbox : after.outbox = node.outbox)
    (ends : ∀ last, node.Ends last → after.Ends last) : Opened id view after := by
  obtain ⟨last, follows, ending⟩ := opened.queue
  refine ⟨named.trans opened.id_eq, last, ?_, ends last ending⟩
  rw [outbox]
  exact follows

theorem send (opened : Opened id view node) (running : node.phase = .running)
    {request : Request ρ} {next : Option String} (named : after.actor.id = node.actor.id)
    (outbox : after.outbox = node.outbox ++ [request])
    (turns : Turns node.actor.id (some node.actor.room) request next) (ends : after.Ends next) :
    Opened id view after := by
  obtain ⟨last, follows, ending⟩ := opened.queue
  rw [opened.id_eq] at turns
  have here : last = some node.actor.room := by simpa [Node.Ends, running] using ending
  subst here
  refine ⟨named.trans opened.id_eq, next, ?_, ends⟩
  rw [outbox]
  exact follows.snoc turns

theorem request (opened : Opened id view node) {session : ChatSession}
    (actor : node.actor = .tcp session) (running : node.phase = .running) (now : Nat)
    (request : ChatRequest) :
    Opened id view ({ node with actor := .tcp (session.handle (ρ := ρ) now request).1 }.perform
      (session.handle now request).2) := by
  obtain ⟨_, _, outbox, reply, inbox, written⟩ := node
  cases actor
  cases running
  cases request with
  | list => exact opened.send rfl rfl rfl (.listRooms _) rfl
  | join name => exact opened.send rfl rfl rfl (.join _ name) rfl
  | message message => exact opened.send rfl rfl rfl (.message _ message) rfl
  | ping => exact opened.quiet rfl rfl fun _ ends => ends

theorem frame (opened : Opened id view node) {session : WsChatSession}
    (actor : node.actor = .ws session) (running : node.phase = .running) (now : Nat)
    (message : WsMessage) :
    Opened id view ({ node with actor := .ws (session.handle (ρ := ρ) now message).1 }.perform
      (session.handle now message).2) := by
  obtain ⟨_, _, outbox, reply, inbox, written⟩ := node
  cases actor
  cases running
  cases message with
  | ping bytes => exact opened.quiet rfl rfl fun _ ends => ends
  | pong => exact opened.quiet rfl rfl fun _ ends => ends
  | text text => exact opened.send rfl rfl rfl (.message _ (session.relayed text)) rfl
  | binary => exact opened.send rfl rfl rfl (.message _ "binary") rfl
  | close => exact opened.quiet rfl rfl fun _ ends => Or.inl ends

theorem interval (opened : Opened id view node) (running : node.phase = .running) (now : Nat) :
    Opened id view (node.perform (node.actor.interval now)) := by
  obtain ⟨pings, -, quiet | departs⟩ := node.actor.interval_eq (ρ := ρ) now
  · rw [quiet, perform_writes]
    exact opened.quiet rfl rfl fun _ ends => ends
  · rw [departs, Node.perform, Node.perform, perform_writes]
    exact opened.send running rfl rfl (.disconnect _) (Or.inr rfl)

theorem stop (opened : Opened id view node)
    (alive : node.phase = .running ∨ ∃ request, node.phase = .waiting request) :
    Opened id view { node with phase := .stopping } := by
  obtain ⟨last, follows, ends⟩ := opened.queue
  refine ⟨opened.id_eq, last, follows, Or.inl ?_⟩
  rcases alive with running | ⟨request, waiting⟩
  · rw [Node.Ends, running] at ends
    exact ends
  · rw [Node.Ends, waiting] at ends
    cases request with
    | listRooms => exact ends
    | _ => exact ends.elim

theorem stopping (opened : Opened id view node) :
    Opened id view ({ node with phase := .stopped }.perform node.actor.stopping) := by
  obtain ⟨last, follows, -⟩ := opened.queue
  rw [Actor.stopping_eq]
  refine ⟨opened.id_eq, none, follows.snoc ?_, rfl⟩
  rw [opened.id_eq]
  exact .disconnect last

theorem answer (opened : Opened id view node) {request : Request ρ} {reply : Reply}
    (waiting : node.phase = .waiting request) (answered : node.answer request reply = some after) :
    Opened id view after := by
  obtain ⟨last, follows, ends⟩ := opened.queue
  rw [Node.Ends, waiting] at ends
  cases request with
  | listRooms =>
      cases reply with
      | rooms rooms =>
          obtain ⟨frames, writes⟩ := node.actor.listed_eq (ρ := ρ) rooms
          rw [Node.answer, writes, perform_writes] at answered
          cases answered
          exact ⟨opened.id_eq, last, follows, ends⟩
      | unit => cases answered
      | id id => cases answered
  | _ => exact ends.elim

end Opened

theorem moves_opened {id : Nat} {view : Option String} (holds : Opened id view node)
    (stepped : node.step? a input = some after) : Opened id view after := by
  cases Node.stepped_of_step? stepped with
  | start idle kind now =>
      obtain ⟨last, -, ends⟩ := holds.queue
      rw [Node.Ends, idle] at ends
      exact ends.elim
  | reply waiting answered answer => exact holds.answer waiting answer
  | request running actor request now => exact holds.request actor running now request
  | frame running actor message now => exact holds.frame actor running now message
  | @deliver text inbox running head =>
      obtain ⟨frame, written⟩ := node.actor.handleMessage_eq (ρ := ρ) text
      rw [written]
      exact holds.quiet rfl rfl fun _ ends => ends
  | interval running now => exact holds.interval running now
  | finished running => exact holds.stop (Or.inl running)
  | disconnected actor alive => exact holds.stop alive
  | stopping told => exact holds.stopping

theorem moves_of_step? {stage : Stage} (holds : stage.Holds a node)
    (stepped : node.step? a input = some after) :
    ∃ next : Stage, next.Holds a after ∧ Moves input stage next := by
  cases stage with
  | idle => exact moves_idle holds stepped
  | connecting => exact moves_connecting holds stepped
  | abandoned => exact moves_abandoned holds stepped
  | answered id => exact moves_answered holds stepped
  | opened id view => exact ⟨.opened id view, moves_opened holds stepped, .stay _⟩
  | lost id => exact moves_lost holds stepped

end Session

section Server

variable {a : ρ} {node : Node ρ}

theorem Stage.Holds.receive {stage : Stage} (holds : stage.Holds a node) (texts : List String) :
    stage.Holds a (node.receive texts) := by
  cases stage with
  | opened id view => exact ⟨holds.id_eq, holds.queue⟩
  | _ => exact holds

theorem Opened.serve {id : Nat} {view : Option String} (opened : Opened id view node)
    {request : Request ρ} {rest : List (Request ρ)} (head : node.outbox = request :: rest)
    (reply : Reply) :
    ∃ next, Opened id next (node.served rest reply) ∧ Turns id view request next := by
  obtain ⟨last, follows, ends⟩ := opened.queue
  rw [head] at follows
  cases follows with
  | cons turns later => exact ⟨_, ⟨opened.id_eq, last, later, ends⟩, turns⟩

/-- Every request that the server handles is one that the stage of its sender allows. -/
theorem serves_of_outbox {stage : Stage} (holds : stage.Holds a node) {request : Request ρ}
    {rest : List (Request ρ)} (head : node.outbox = request :: rest)
    (present : node.phase = .stopped → ∀ b, request ≠ .connect b) {draw : Nat} {reply : Reply}
    (answer : request = .connect a → reply = .id draw) :
    ∃ next : Stage, next.Holds a (node.served rest reply) ∧ Serves a draw stage request next := by
  cases stage with
  | idle =>
      rw [holds.2.1] at head
      cases head
  | connecting =>
      obtain ⟨fresh, phase, outbox, -⟩ := holds
      rw [outbox] at head
      cases head
      refine ⟨.answered draw, ⟨fresh, phase, rfl, ?_⟩, .connect⟩
      rw [answer rfl]
      rfl
  | abandoned =>
      obtain ⟨fresh, ⟨phase, outbox⟩ | ⟨phase, outbox | outbox⟩⟩ := holds
      · rw [outbox] at head
        cases head
        by_cases zero : draw = 0
        · refine ⟨.opened 0 (some "Main"), ⟨fresh.1, some "Main", .nil _, ?_⟩, .lateZero zero⟩
          simp [Node.Ends, Node.served, phase, fresh.2]
        · exact ⟨.lost draw, ⟨fresh, Or.inl ⟨phase, rfl⟩⟩, .late zero⟩
      · rw [outbox] at head
        cases head
        exact absurd rfl (present phase a)
      · have unheard := outbox request (head ▸ List.mem_cons_self)
        refine ⟨.abandoned, ⟨fresh, Or.inr ⟨phase, Or.inr ?_⟩⟩, unheard ▸ .unheard⟩
        intro later queued
        exact outbox later (head ▸ List.mem_cons_of_mem _ queued)
  | answered id =>
      rw [holds.2.2.1] at head
      cases head
  | opened id view =>
      obtain ⟨next, opened, turns⟩ := Opened.serve holds head reply
      exact ⟨.opened id next, opened, .turn turns⟩
  | lost id =>
      obtain ⟨fresh, ⟨phase, outbox⟩ | ⟨phase, outbox⟩⟩ := holds
      · rw [outbox] at head
        cases head
      · have stray := outbox request (head ▸ List.mem_cons_self)
        refine ⟨.lost id, ⟨fresh, Or.inr ⟨phase, ?_⟩⟩, stray ▸ .stray id⟩
        intro later queued
        exact outbox later (head ▸ List.mem_cons_of_mem _ queued)

theorem holds_of_skipped {stage : Stage} (holds : stage.Holds a node) {request : Request ρ}
    {rest : List (Request ρ)} (head : node.outbox = request :: rest)
    (stopped : node.phase = .stopped)
    (awaited : request = .listRooms ∨ ∃ b, request = .connect b) :
    stage.Holds a { node with outbox := rest } := by
  have notGone : request ≠ .disconnect 0 := by
    rintro rfl
    rcases awaited with same | ⟨b, same⟩ <;> cases same
  have among : request ∈ node.outbox := head ▸ List.mem_cons_self
  cases stage with
  | idle => cases holds.1.symm.trans stopped
  | connecting => cases holds.2.1.symm.trans stopped
  | abandoned =>
      obtain ⟨fresh, ⟨phase, -⟩ | ⟨phase, outbox | outbox⟩⟩ := holds
      · cases phase.symm.trans stopped
      · rw [outbox] at head
        cases head
        exact ⟨fresh, Or.inr ⟨phase, Or.inr fun _ => List.mem_singleton.mp⟩⟩
      · exact absurd (outbox request among) notGone
  | answered id => cases holds.2.1.symm.trans stopped
  | opened id view =>
      obtain ⟨last, follows, ends⟩ := Opened.queue holds
      rw [head] at follows
      cases follows with
      | cons turns later =>
          cases turns with
          | listRooms room => exact ⟨holds.id_eq, last, later, ends⟩
          | _ => rcases awaited with same | ⟨b, same⟩ <;> cases same
  | lost id =>
      obtain ⟨-, ⟨phase, -⟩ | ⟨-, outbox⟩⟩ := holds
      · cases phase.symm.trans stopped
      · exact absurd (outbox request among) notGone

end Server

end RustDemo.Chat
