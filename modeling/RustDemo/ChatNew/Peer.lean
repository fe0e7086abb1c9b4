import RustDemo.ChatNew.Lines
import RustDemo.Collections.HashMap
import RustDemo.Transition.System

/-!
# Peers

The tasks of `chatnew`, one for each accepted connection, and the map they
share.  A task is polled by any thread at any time, so one poll of a `Peer` is
not one step: it is cut at every point where it looks at its channel, at its
socket or at the shared map.  The broadcast loop runs under the lock and is one
step.
-/

namespace RustDemo.ChatNew

open RustDemo.Collections RustDemo.Transition

/-- Where a task stands in `Peer::poll`; `idle` and `finished` are outside of it. -/
inductive Position where
  | idle
  | receiving (i : Nat)
  | flushing
  | reading
  | finished
deriving DecidableEq

/--
A `Peer`.  The queue `rx` is its channel.  The ghost field `since` is the number
of lines that had been broadcast when it was registered; no step reads it.
-/
structure Peer (ε : Type) where
  name : Bytes
  lines : Lines ε
  rx : List Bytes
  position : Position
  notified : Bool
  since : Nat

/--
A connection: not accepted yet, before its first line, a peer, a peer of which
`Drop` has run but whose channel is still there, or gone.
-/
inductive Task (ε : Type) where
  | absent
  | naming (lines : Lines ε)
  | peer (peer : Peer ε)
  | dropped (peer : Peer ε)
  | done

structure Said (κ : Type) where
  sender : κ
  name : Bytes
  message : Bytes
deriving DecidableEq

def Said.line {κ : Type} (said : Said κ) : Bytes := broadcastLine said.name said.message

/--
All connections, named by `κ`.  A `Tx` in the shared map stands for the
connection whose `rx` it feeds.  The ghost field `log` has every line broadcast
so far.
-/
structure Chat (κ σ ε : Type) where
  peers : HashMap σ κ
  tasks : κ → Task ε
  log : List (Said κ)

namespace Peer

variable {ε : Type}

def LINES_PER_TICK : Nat := 10

/-- The executor calls `poll`. -/
def start (peer : Peer ε) : Option (Peer ε) :=
  match peer.position with
  | .idle => some { peer with position := .receiving 0, notified := false }
  | _ => none

/-- One round of the loop that receives from the channel. -/
def receive (peer : Peer ε) : Option (Peer ε) :=
  match peer.position with
  | .receiving i =>
      match peer.rx with
      | v :: rx =>
          let peer := { peer with lines := peer.lines.buffer v, rx := rx }
          if i + 1 = LINES_PER_TICK then
            some { peer with notified := true, position := .flushing }
          else some { peer with position := .receiving (i + 1) }
      | [] => some { peer with position := .flushing }
  | _ => none

/-- One round of `poll_flush`; only an error of it ends the poll. -/
def flush (peer : Peer ε) (event : WriteEvent ε) : Option (Peer ε) :=
  match peer.position with
  | .flushing =>
      match peer.lines.pollFlushRound event with
      | some (none, lines) => some { peer with lines := lines }
      | some (some (.ok _), lines) => some { peer with lines := lines, position := .reading }
      | some (some (.error _), lines) => some { peer with lines := lines, position := .finished }
      | none => none
  | _ => none

/-- One round of the loop that reads lines, and the message it has to broadcast. -/
def read (peer : Peer ε) : Option (Peer ε × Option Bytes) :=
  match peer.position with
  | .reading =>
      match peer.lines.poll with
      | (.error _, lines) => some ({ peer with lines := lines, position := .finished }, none)
      | (.ok .notReady, lines) => some ({ peer with lines := lines, position := .idle }, none)
      | (.ok (.ready none), lines) =>
          some ({ peer with lines := lines, position := .finished }, none)
      | (.ok (.ready (some message)), lines) => some ({ peer with lines := lines }, some message)
  | _ => none

/-! ### What one round does -/

theorem starts {peer after : Peer ε} (started : peer.start = some after) :
    peer.position = .idle ∧ after = { peer with position := .receiving 0, notified := false } := by
  unfold start at started
  split at started
  · rename_i idle
    cases started
    exact ⟨idle, rfl⟩
  · cases started

/-- All that a round of the receiving loop can do. -/
inductive Receives (peer : Peer ε) : Peer ε → Prop where
  | line {i : Nat} {v : Bytes} {rx : List Bytes} (turn : peer.position = .receiving i)
      (queued : peer.rx = v :: rx) :
      Receives peer { peer with
        lines := peer.lines.buffer v, rx := rx, position := .receiving (i + 1) }
  | last {i : Nat} {v : Bytes} {rx : List Bytes} (turn : peer.position = .receiving i)
      (queued : peer.rx = v :: rx) (limit : i + 1 = LINES_PER_TICK) :
      Receives peer { peer with
        lines := peer.lines.buffer v, rx := rx, notified := true, position := .flushing }
  | none {i : Nat} (turn : peer.position = .receiving i) (queued : peer.rx = []) :
      Receives peer { peer with position := .flushing }

theorem receives {peer after : Peer ε} (received : peer.receive = some after) :
    peer.Receives after := by
  unfold receive at received
  split at received
  · rename_i turn
    cases queued : peer.rx with
    | nil =>
        rw [queued] at received
        cases received
        rw [← queued]
        exact .none turn queued
    | cons v rx =>
        rw [queued] at received
        dsimp only at received
        split at received
        · rename_i limit
          cases received
          exact .last turn queued limit
        · cases received
          exact .line turn queued
  · cases received

/-- All that a round of the flushing loop can do. -/
inductive Flushes (peer : Peer ε) (event : WriteEvent ε) : Peer ε → Prop where
  | again {lines : Lines ε} (turn : peer.position = .flushing)
      (round : peer.lines.FlushRound event none lines) :
      Flushes peer event { peer with lines := lines }
  | done {answer : Async Unit} {lines : Lines ε} (turn : peer.position = .flushing)
      (round : peer.lines.FlushRound event (some (.ok answer)) lines) :
      Flushes peer event { peer with lines := lines, position := .reading }
  | failed {failure : ε} {lines : Lines ε} (turn : peer.position = .flushing)
      (round : peer.lines.FlushRound event (some (.error failure)) lines) :
      Flushes peer event { peer with lines := lines, position := .finished }

theorem flushes {peer after : Peer ε} {event : WriteEvent ε}
    (flushed : peer.flush event = some after) : peer.Flushes event after := by
  unfold flush at flushed
  split at flushed
  · rename_i turn
    cases answer : peer.lines.pollFlushRound event with
    | none =>
        rw [answer] at flushed
        cases flushed
    | some pair =>
        obtain ⟨result, lines⟩ := pair
        have round := Lines.flushRound answer
        rw [answer] at flushed
        rcases result with _ | failure | written
        · cases flushed
          exact .again turn round
        · cases flushed
          exact .failed turn round
        · cases flushed
          exact .done turn round
  · cases flushed

/-- All that a round of the reading loop can do, and the message to broadcast. -/
inductive Reads (peer : Peer ε) : Peer ε → Option Bytes → Prop where
  | error {failure : ε} {lines : Lines ε} (turn : peer.position = .reading)
      (polls : peer.lines.poll = (.error failure, lines)) :
      Reads peer { peer with lines := lines, position := .finished } none
  | notReady {lines : Lines ε} (turn : peer.position = .reading)
      (polls : peer.lines.poll = (.ok .notReady, lines)) :
      Reads peer { peer with lines := lines, position := .idle } none
  | closed {lines : Lines ε} (turn : peer.position = .reading)
      (polls : peer.lines.poll = (.ok (.ready none), lines)) :
      Reads peer { peer with lines := lines, position := .finished } none
  | line {message : Bytes} {lines : Lines ε} (turn : peer.position = .reading)
      (polls : peer.lines.poll = (.ok (.ready (some message)), lines)) :
      Reads peer { peer with lines := lines } (some message)

theorem reads {peer after : Peer ε} {message : Option Bytes}
    (read : peer.read = some (after, message)) : peer.Reads after message := by
  unfold Peer.read at read
  split at read
  · rename_i turn
    split at read
    · rename_i polls
      cases read
      exact .error turn polls
    · rename_i polls
      cases read
      exact .notReady turn polls
    · rename_i polls
      cases read
      exact .closed turn polls
    · rename_i polls
      cases read
      exact .line turn polls
  · cases read

end Peer

/-- `unbounded_send` to the channel of a connection; it fails when the channel is gone. -/
def Task.unboundedSend {ε : Type} (task : Task ε) (line : Bytes) : Option (Task ε) :=
  match task with
  | .peer receiver => some (.peer { receiver with rx := receiver.rx ++ [line] })
  | .dropped receiver => some (.dropped { receiver with rx := receiver.rx ++ [line] })
  | _ => none

inductive Action (κ ε : Type) where
  | accept (k : κ) (incoming : List (ReadEvent ε))
  | name (k : κ)
  | poll (k : κ)
  | receive (k : κ)
  | flush (k : κ) (event : WriteEvent ε)
  | read (k : κ)
  | drop (k : κ)
  | release (k : κ)

namespace Chat

variable {κ σ ε : Type} [DecidableEq κ] [DecidableEq σ] (addr : κ → σ)

def new : Chat κ σ ε := ⟨∅, fun _ => .absent, []⟩

def setTask (chat : Chat κ σ ε) (k : κ) (task : Task ε) : Chat κ σ ε :=
  { chat with tasks := Function.update chat.tasks k task }

omit [DecidableEq σ] in
@[simp] theorem setTask_self (chat : Chat κ σ ε) (k : κ) (task : Task ε) :
    (chat.setTask k task).tasks k = task := Function.update_self ..

omit [DecidableEq σ] in
theorem setTask_of_ne (chat : Chat κ σ ε) {j k : κ} (task : Task ε) (other : j ≠ k) :
    (chat.setTask k task).tasks j = chat.tasks j := Function.update_of_ne other ..

/-- `Peer::new`. -/
def newPeer (chat : Chat κ σ ε) (k : κ) (name : Bytes) (lines : Lines ε) : Chat κ σ ε :=
  { chat.setTask k (.peer ⟨name, lines, [], .idle, false, chat.log.length⟩) with
    peers := chat.peers.insert (addr k) k }

/-- A poll of the connection in `process`, up to the creation of its peer. -/
def process (chat : Chat κ σ ε) (k : κ) (lines : Lines ε) : Chat κ σ ε :=
  match lines.poll with
  | (.error _, _) => chat.setTask k .done
  | (.ok .notReady, lines) => chat.setTask k (.naming lines)
  | (.ok (.ready none), _) => chat.setTask k .done
  | (.ok (.ready (some name)), lines) => chat.newPeer addr k name lines

/--
The broadcast loop over the entries of the shared map.  There is no result when
a send fails: the `unwrap` panics.
-/
def sendToOthers (own : σ) (line : Bytes) :
    List (Sigma fun _ : σ => κ) → (κ → Task ε) → Option (κ → Task ε)
  | [], tasks => some tasks
  | ⟨other, tx⟩ :: entries, tasks =>
      if other ≠ own then
        ((tasks tx).unboundedSend line).bind fun task =>
          sendToOthers own line entries (Function.update tasks tx task)
      else sendToOthers own line entries tasks

def broadcast (chat : Chat κ σ ε) (said : Said κ) : Option (Chat κ σ ε) :=
  (sendToOthers (addr said.sender) said.line chat.peers.entries chat.tasks).map fun tasks =>
    { chat with tasks := tasks, log := chat.log ++ [said] }

def read (chat : Chat κ σ ε) (k : κ) (peer : Peer ε) : Option (Chat κ σ ε) :=
  match peer.read with
  | none => none
  | some (after, none) => some (chat.setTask k (.peer after))
  | some (after, some message) =>
      (chat.setTask k (.peer after)).broadcast addr ⟨k, peer.name, message⟩

/-- `Drop for Peer`; the channel is dropped after it. -/
def drop (chat : Chat κ σ ε) (k : κ) (peer : Peer ε) : Chat κ σ ε :=
  { chat.setTask k (.dropped peer) with peers := chat.peers.erase (addr k) }

def step? (chat : Chat κ σ ε) : Action κ ε → Option (Chat κ σ ε)
  | .accept k incoming =>
      match chat.tasks k with
      | .absent => some (chat.setTask k (.naming (Lines.new ⟨incoming, []⟩)))
      | _ => none
  | .name k =>
      match chat.tasks k with
      | .naming lines => some (chat.process addr k lines)
      | _ => none
  | .poll k =>
      match chat.tasks k with
      | .peer peer => peer.start.map fun after => chat.setTask k (.peer after)
      | _ => none
  | .receive k =>
      match chat.tasks k with
      | .peer peer => peer.receive.map fun after => chat.setTask k (.peer after)
      | _ => none
  | .flush k event =>
      match chat.tasks k with
      | .peer peer => (peer.flush event).map fun after => chat.setTask k (.peer after)
      | _ => none
  | .read k =>
      match chat.tasks k with
      | .peer peer => chat.read addr k peer
      | _ => none
  | .drop k =>
      match chat.tasks k with
      | .peer peer => some (chat.drop addr k peer)
      | _ => none
  | .release k =>
      match chat.tasks k with
      | .dropped _ => some (chat.setTask k .done)
      | _ => none

inductive Acts (chat : Chat κ σ ε) : Action κ ε → Chat κ σ ε → Prop where
  | accepted {k : κ} (incoming : List (ReadEvent ε)) (absent : chat.tasks k = .absent) :
      Acts chat (.accept k incoming) (chat.setTask k (.naming (Lines.new ⟨incoming, []⟩)))
  | failed {k : κ} {lines after : Lines ε} {failure : ε} (waiting : chat.tasks k = .naming lines)
      (polls : lines.poll = (.error failure, after)) :
      Acts chat (.name k) (chat.setTask k .done)
  | waits {k : κ} {lines after : Lines ε} (waiting : chat.tasks k = .naming lines)
      (polls : lines.poll = (.ok .notReady, after)) :
      Acts chat (.name k) (chat.setTask k (.naming after))
  | left {k : κ} {lines after : Lines ε} (waiting : chat.tasks k = .naming lines)
      (polls : lines.poll = (.ok (.ready none), after)) :
      Acts chat (.name k) (chat.setTask k .done)
  | joined {k : κ} {lines after : Lines ε} {name : Bytes} (waiting : chat.tasks k = .naming lines)
      (polls : lines.poll = (.ok (.ready (some name)), after)) :
      Acts chat (.name k) (chat.newPeer addr k name after)
  | polled {k : κ} {peer after : Peer ε} (live : chat.tasks k = .peer peer)
      (started : peer.start = some after) : Acts chat (.poll k) (chat.setTask k (.peer after))
  | received {k : κ} {peer after : Peer ε} (live : chat.tasks k = .peer peer)
      (received : peer.receive = some after) :
      Acts chat (.receive k) (chat.setTask k (.peer after))
  | flushed {k : κ} {event : WriteEvent ε} {peer after : Peer ε} (live : chat.tasks k = .peer peer)
      (flushed : peer.flush event = some after) :
      Acts chat (.flush k event) (chat.setTask k (.peer after))
  | read {k : κ} {peer after : Peer ε} (live : chat.tasks k = .peer peer)
      (read : peer.read = some (after, none)) :
      Acts chat (.read k) (chat.setTask k (.peer after))
  | said {k : κ} {peer after : Peer ε} {message : Bytes} {next : Chat κ σ ε}
      (live : chat.tasks k = .peer peer) (read : peer.read = some (after, some message))
      (sent : (chat.setTask k (.peer after)).broadcast addr ⟨k, peer.name, message⟩ = some next) :
      Acts chat (.read k) next
  | dropped {k : κ} {peer : Peer ε} (live : chat.tasks k = .peer peer) :
      Acts chat (.drop k) (chat.drop addr k peer)
  | released {k : κ} {peer : Peer ε} (gone : chat.tasks k = .dropped peer) :
      Acts chat (.release k) (chat.setTask k .done)

variable {addr : κ → σ} {chat next : Chat κ σ ε} {k : κ}

theorem acts_process {lines : Lines ε} (waiting : chat.tasks k = .naming lines) :
    chat.Acts addr (.name k) (chat.process addr k lines) := by
  unfold process
  split
  · rename_i polls
    exact .failed waiting polls
  · rename_i polls
    exact .waits waiting polls
  · rename_i polls
    exact .left waiting polls
  · rename_i polls
    exact .joined waiting polls

theorem acts_read {peer : Peer ε} (live : chat.tasks k = .peer peer)
    (stepped : chat.read addr k peer = some next) : chat.Acts addr (.read k) next := by
  unfold Chat.read at stepped
  split at stepped
  · cases stepped
  · rename_i read
    cases stepped
    exact .read live read
  · rename_i read
    exact .said live read stepped

theorem acts {action : Action κ ε} (stepped : chat.step? addr action = some next) :
    chat.Acts addr action next := by
  cases action with
  | accept k incoming =>
      rw [step?] at stepped
      split at stepped <;> cases stepped
      rename_i absent
      exact .accepted incoming absent
  | name k =>
      rw [step?] at stepped
      split at stepped <;> cases stepped
      rename_i waiting
      exact acts_process waiting
  | poll k =>
      rw [step?] at stepped
      split at stepped
      · rename_i live
        obtain ⟨after, started, rfl⟩ := Option.map_eq_some_iff.mp stepped
        exact .polled live started
      · cases stepped
  | receive k =>
      rw [step?] at stepped
      split at stepped
      · rename_i live
        obtain ⟨after, received, rfl⟩ := Option.map_eq_some_iff.mp stepped
        exact .received live received
      · cases stepped
  | flush k event =>
      rw [step?] at stepped
      split at stepped
      · rename_i live
        obtain ⟨after, flushed, rfl⟩ := Option.map_eq_some_iff.mp stepped
        exact .flushed live flushed
      · cases stepped
  | read k =>
      rw [step?] at stepped
      split at stepped
      · rename_i live
        exact acts_read live stepped
      · cases stepped
  | drop k =>
      rw [step?] at stepped
      split at stepped <;> cases stepped
      rename_i live
      exact .dropped live
  | release k =>
      rw [step?] at stepped
      split at stepped <;> cases stepped
      rename_i gone
      exact .released gone

variable (addr) in
def system : System (Chat κ σ ε) (Action κ ε) := ⟨new, step? addr⟩

end Chat

end RustDemo.ChatNew
