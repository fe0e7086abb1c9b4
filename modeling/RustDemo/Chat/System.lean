import RustDemo.Chat.Session

/-!
# Sessions and server together

Each session has a queue of requests on their way to the server, so that they
arrive in the order in which it sent them; the server takes the next request of
any session.  Texts from the server wait in the inbox of a session.  While a
session waits for an answer it handles nothing, and once it was told to stop
the only thing it still does is `stopping`.  What it had sent is still handled,
except for a request that it would have waited for.
-/

namespace RustDemo.Chat

open RustDemo.Collections RustDemo.Transition

/-- Where an actor is in its life; a waiting one holds the request it wants answered. -/
inductive Phase (ρ : Type) where
  | idle
  | waiting (request : Request ρ)
  | running
  | stopping
  | stopped
  deriving DecidableEq

/--
An actor in its context: what it has sent to the server and the server has not
taken yet, the answer on its way, the texts on their way, and the frames written.
-/
structure Node (ρ : Type) where
  actor : Actor
  phase : Phase ρ
  outbox : List (Request ρ)
  reply : Option Reply
  inbox : List String
  written : List Frame

inductive Kind where
  | tcp
  | ws

/-- What can happen to a session. -/
inductive Input where
  | start (kind : Kind) (now : Nat)
  | reply
  | request (request : ChatRequest) (now : Nat)
  | frame (message : WsMessage) (now : Nat)
  | deliver
  | interval (now : Nat)
  | finished
  | disconnected
  | stopping

namespace Node

variable {ρ : Type}

/-- A session that has not been created yet; its actor is put in place by `start`. -/
def idle : Node ρ := ⟨.tcp (ChatSession.new 0), .idle, [], none, [], []⟩

/-- Let the context carry out what a handler asked for. -/
def perform (node : Node ρ) : List (Effect ρ) → Node ρ
  | [] => node
  | .doSend request :: effects =>
      { node with outbox := node.outbox ++ [request] }.perform effects
  | .sendWait request :: effects =>
      { node with outbox := node.outbox ++ [request], phase := .waiting request }.perform effects
  | .write frame :: effects => { node with written := node.written ++ [frame] }.perform effects
  | .stop :: effects => { node with phase := .stopping }.perform effects

/-- The actor is created, and `started` is called. -/
def start (node : Node ρ) (a : ρ) (kind : Kind) (now : Nat) : Node ρ :=
  let actor := match kind with
    | .tcp => Actor.tcp (ChatSession.new now)
    | .ws => Actor.ws (WsChatSession.new now)
  { node with actor := actor, phase := .running }.perform (actor.started a)

def answer (node : Node ρ) (request : Request ρ) (reply : Reply) : Option (Node ρ) :=
  match request, reply with
  | .connect _, .id id =>
      let (actor, effects) := node.actor.connected (some id)
      some ({ node with actor := actor, phase := .running, reply := none }.perform effects)
  | .listRooms, .rooms rooms =>
      some ({ node with phase := .running, reply := none }.perform
        (node.actor.listed (some rooms)))
  | _, _ => none

/-- The effect of one input, where the context lets it through. -/
def step? (a : ρ) (node : Node ρ) : Input → Option (Node ρ)
  | .start kind now =>
      match node.phase with
      | .idle => some (node.start a kind now)
      | _ => none
  | .reply =>
      match node.phase, node.reply with
      | .waiting request, some reply => node.answer request reply
      | _, _ => none
  | .request request now =>
      match node.phase, node.actor with
      | .running, .tcp session =>
          let (session, effects) := session.handle now request
          some ({ node with actor := .tcp session }.perform effects)
      | _, _ => none
  | .frame message now =>
      match node.phase, node.actor with
      | .running, .ws session =>
          let (session, effects) := session.handle now message
          some ({ node with actor := .ws session }.perform effects)
      | _, _ => none
  | .deliver =>
      match node.phase, node.inbox with
      | .running, text :: inbox =>
          some ({ node with inbox := inbox }.perform (node.actor.handleMessage text))
      | _, _ => none
  | .interval now =>
      match node.phase with
      | .running => some (node.perform (node.actor.interval now))
      | _ => none
  | .finished =>
      match node.phase with
      | .running => some { node with phase := .stopping }
      | _ => none
  -- only the websocket context is stopped from outside, even while it waits
  | .disconnected =>
      match node.phase, node.actor with
      | .running, .ws _ | .waiting _, .ws _ => some { node with phase := .stopping }
      | _, _ => none
  | .stopping =>
      match node.phase with
      | .stopping => some ({ node with phase := .stopped }.perform node.actor.stopping)
      | _ => none

def receive (node : Node ρ) (texts : List String) : Node ρ :=
  { node with inbox := node.inbox ++ texts }

/--
A request that was sent with `wait` is skipped once its sender has stopped: the
receiver of the answer is gone.
-/
def skips (node : Node ρ) : Request ρ → Bool
  | .connect _ | .listRooms =>
      match node.phase with
      | .stopped => true
      | _ => false
  | _ => false

/-- The server took the first request; the answer to it, if there is one, is on its way. -/
def served (node : Node ρ) (rest : List (Request ρ)) (reply : Reply) : Node ρ :=
  { node with
    outbox := rest
    reply := match reply with
      | .unit => node.reply
      | reply => some reply }

/-- All that one step of a session can do, and when. -/
inductive Stepped (a : ρ) (node : Node ρ) : Input → Node ρ → Prop where
  | start (idle : node.phase = .idle) (kind : Kind) (now : Nat) :
      Stepped a node (.start kind now) (node.start a kind now)
  | reply {request : Request ρ} {reply : Reply} {after : Node ρ}
      (waiting : node.phase = .waiting request) (answered : node.reply = some reply)
      (answer : node.answer request reply = some after) : Stepped a node .reply after
  | request {session : ChatSession} (running : node.phase = .running)
      (actor : node.actor = .tcp session) (request : ChatRequest) (now : Nat) :
      Stepped a node (.request request now)
        ({ node with actor := .tcp (session.handle (ρ := ρ) now request).1 }.perform
          (session.handle now request).2)
  | frame {session : WsChatSession} (running : node.phase = .running)
      (actor : node.actor = .ws session) (message : WsMessage) (now : Nat) :
      Stepped a node (.frame message now)
        ({ node with actor := .ws (session.handle (ρ := ρ) now message).1 }.perform
          (session.handle now message).2)
  | deliver {text : String} {inbox : List String} (running : node.phase = .running)
      (head : node.inbox = text :: inbox) :
      Stepped a node .deliver
        ({ node with inbox := inbox }.perform (node.actor.handleMessage text))
  | interval (running : node.phase = .running) (now : Nat) :
      Stepped a node (.interval now) (node.perform (node.actor.interval now))
  | finished (running : node.phase = .running) :
      Stepped a node .finished { node with phase := .stopping }
  | disconnected {session : WsChatSession} (actor : node.actor = .ws session)
      (alive : node.phase = .running ∨ ∃ request, node.phase = .waiting request) :
      Stepped a node .disconnected { node with phase := .stopping }
  | stopping (told : node.phase = .stopping) :
      Stepped a node .stopping ({ node with phase := .stopped }.perform node.actor.stopping)

theorem stepped_of_step? {a : ρ} {node after : Node ρ} {input : Input}
    (stepped : node.step? a input = some after) : Stepped a node input after := by
  cases input with
  | start kind now =>
      rw [step?] at stepped
      split at stepped <;> cases stepped
      rename_i idle
      exact .start idle kind now
  | reply =>
      rw [step?] at stepped
      split at stepped
      · rename_i waiting answered
        exact .reply waiting answered stepped
      · cases stepped
  | request request now =>
      rw [step?] at stepped
      split at stepped <;> cases stepped
      rename_i running actor
      exact .request running actor request now
  | frame message now =>
      rw [step?] at stepped
      split at stepped <;> cases stepped
      rename_i running actor
      exact .frame running actor message now
  | deliver =>
      rw [step?] at stepped
      split at stepped <;> cases stepped
      rename_i running head
      exact .deliver running head
  | interval now =>
      rw [step?] at stepped
      split at stepped <;> cases stepped
      rename_i running
      exact .interval running now
  | finished =>
      rw [step?] at stepped
      split at stepped <;> cases stepped
      rename_i running
      exact .finished running
  | disconnected =>
      rw [step?] at stepped
      split at stepped <;> cases stepped
      · rename_i running actor
        exact .disconnected actor (Or.inl running)
      · rename_i waiting actor
        exact .disconnected actor (Or.inr ⟨_, waiting⟩)
  | stopping =>
      rw [step?] at stepped
      split at stepped <;> cases stepped
      rename_i told
      exact .stopping told

end Node

/-- A request that the server has handled: who sent it, the number drawn and what was sent. -/
structure Handled (ρ : Type) where
  sender : ρ
  draw : Nat
  request : Request ρ
  sent : List (ρ × String)

/-- The server, all sessions, and the ghost record of what was handled. -/
structure State (ρ : Type) where
  server : ChatServer ρ
  node : ρ → Node ρ
  handled : List (Handled ρ)

/-- A step of a session, or of the server on the next request of a session. -/
inductive Label (ρ : Type) where
  | session (a : ρ) (input : Input)
  | serve (a : ρ) (draw : Nat)

namespace State

variable {ρ : Type} [DecidableEq ρ]

def new : State ρ := ⟨ChatServer.default, fun _ => Node.idle, []⟩

def textsFor (b : ρ) (sent : List (ρ × String)) : List String :=
  sent.filterMap fun entry => if entry.1 = b then some entry.2 else none

/-- The server takes the first request of the session, and handles it unless it is skipped. -/
def serve (state : State ρ) (a : ρ) (draw : Nat) : Option (State ρ) :=
  match (state.node a).outbox with
  | [] => none
  | request :: rest =>
      if (state.node a).skips request then
        some { state with
          node := Function.update state.node a { state.node a with outbox := rest } }
      else
        (state.server.handle draw request).map fun out =>
          let node := Function.update state.node a ((state.node a).served rest out.reply)
          { server := out.server
            node := fun b => (node b).receive (textsFor b out.sent)
            handled := state.handled ++ [⟨a, draw, request, out.sent⟩] }

def step? (state : State ρ) : Label ρ → Option (State ρ)
  | .session a input =>
      ((state.node a).step? a input).map fun node =>
        { state with node := Function.update state.node a node }
  | .serve a draw => state.serve a draw

def system (ρ : Type) [DecidableEq ρ] : System (State ρ) (Label ρ) := ⟨new, step?⟩

/-- All that the server can do with the first request of a session. -/
inductive Served (state : State ρ) (a : ρ) (draw : Nat) : State ρ → Prop where
  | skipped {request : Request ρ} {rest : List (Request ρ)}
      (head : (state.node a).outbox = request :: rest) (stopped : (state.node a).phase = .stopped)
      (awaited : request = .listRooms ∨ ∃ b, request = .connect b) :
      Served state a draw { state with
        node := Function.update state.node a { state.node a with outbox := rest } }
  | handled {request : Request ρ} {rest : List (Request ρ)} {out : Outcome ρ}
      (head : (state.node a).outbox = request :: rest)
      (handled : state.server.handle draw request = some out)
      (present : (state.node a).phase = .stopped → ∀ b, request ≠ .connect b) :
      Served state a draw
        { server := out.server
          node := fun b => (Function.update state.node a
            ((state.node a).served rest out.reply) b).receive (textsFor b out.sent)
          handled := state.handled ++ [⟨a, draw, request, out.sent⟩] }

omit [DecidableEq ρ] in
theorem skips_eq_true {node : Node ρ} {request : Request ρ} (skips : node.skips request = true) :
    node.phase = .stopped ∧ (request = .listRooms ∨ ∃ b, request = .connect b) := by
  cases request with
  | connect b =>
      rw [Node.skips] at skips
      split at skips
      · rename_i stopped
        exact ⟨stopped, Or.inr ⟨b, rfl⟩⟩
      · cases skips
  | listRooms =>
      rw [Node.skips] at skips
      split at skips
      · rename_i stopped
        exact ⟨stopped, Or.inl rfl⟩
      · cases skips
  | _ => cases skips

theorem served_of_serve {state next : State ρ} {a : ρ} {draw : Nat}
    (served : state.serve a draw = some next) : Served state a draw next := by
  unfold serve at served
  split at served
  · cases served
  · rename_i request rest head
    split at served
    · rename_i skips
      cases served
      obtain ⟨stopped, awaited⟩ := skips_eq_true skips
      exact .skipped head stopped awaited
    · rename_i taken
      obtain ⟨out, handled, rfl⟩ := Option.map_eq_some_iff.mp served
      refine .handled head handled ?_
      rintro stopped b rfl
      exact taken (by simp [Node.skips, stopped])

theorem serve_of_not_stopped {state : State ρ} {a : ρ} {request : Request ρ}
    {rest : List (Request ρ)} (head : (state.node a).outbox = request :: rest)
    (going : (state.node a).phase ≠ .stopped) {draw : Nat} {out : Outcome ρ}
    (handled : state.server.handle draw request = some out) :
    state.serve a draw = some
      { server := out.server
        node := fun b => (Function.update state.node a
          ((state.node a).served rest out.reply) b).receive (textsFor b out.sent)
        handled := state.handled ++ [⟨a, draw, request, out.sent⟩] } := by
  have taken : ¬ (state.node a).skips request = true := fun skips => going (skips_eq_true skips).1
  simp only [serve, head, if_neg taken, handled, Option.map_some]

theorem node_of_serve {state next : State ρ} {b : ρ} {draw : Nat}
    (served : state.serve b draw = some next) (a : ρ) :
    (next.node a).actor = (state.node a).actor ∧ (next.node a).phase = (state.node a).phase ∧
      (next.node a).written = (state.node a).written := by
  cases served_of_serve served with
  | skipped head stopped awaited =>
      by_cases own : a = b
      · subst own
        simp
      · simp [Function.update_of_ne own]
  | handled head handled present =>
      by_cases own : a = b
      · subst own
        simp [Node.receive, Node.served]
      · simp [Node.receive, Function.update_of_ne own]

def draws (handled : List (Handled ρ)) : List Nat :=
  handled.filterMap fun entry =>
    match entry.request with
    | .connect _ => some entry.draw
    | _ => none

def requests (handled : List (Handled ρ)) : List (Nat × Request ρ) :=
  handled.map fun entry => (entry.draw, entry.request)

end State

end RustDemo.Chat
