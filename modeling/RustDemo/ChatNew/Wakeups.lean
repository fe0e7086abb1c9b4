import RustDemo.ChatNew.Broadcast
import Mathlib.Logic.Function.Basic

/-!
# Wake-ups

A poll that returns `NotReady` is called again only when something wakes its
task: the task itself, or a source whose last answer in that poll was
`NotReady`.  One call of `Peer::poll` is taken here together with its channel,
while other threads may send to the channel, or drop the last sender of it, at
any time.
-/

namespace RustDemo.ChatNew

open RustDemo.Collections RustDemo.Stream RustDemo.Transition

/--
What is around the queue of a channel: if it has senders left, if it keeps the
handle of the task, and if it has used it; and its last answer in this call.
-/
structure Channel where
  senders : Bool
  parked : Bool
  woken : Bool
  answer : Option (Async (Option Bytes))

/-- One call of `poll`, with the last answers to a write and to a read in it. -/
structure Call (ε : Type) where
  peer : Peer ε
  channel : Channel
  write : Option (WriteEvent ε)
  read : Option (Except ε (Async Nat))

/-- The rounds of the three loops, and what other threads do to the channel. -/
inductive CallEvent (ε : Type) where
  | receive
  | flush (event : WriteEvent ε)
  | read
  | send (line : Bytes)
  | close

/-- The answer to the last `read_buf` of a call of `fill_read_buf`. -/
def lastRead {ε : Type} : List (ReadEvent ε) → Except ε (Async Nat)
  | [] => .ok (.ready 0)
  | .chunk _ _ :: incoming => lastRead incoming
  | .notReady :: _ => .ok .notReady
  | .error failure :: _ => .error failure

theorem lastRead_of_readBuf {ε : Type} {rd : Bytes} {incoming : List (ReadEvent ε)}
    (stopped : (Lines.readBuf rd incoming).1 = .ok .notReady) :
    lastRead incoming = .ok .notReady := by
  induction incoming generalizing rd with
  | nil => cases stopped
  | cons event incoming ih =>
      cases event with
      | chunk bytes nonempty => exact ih stopped
      | notReady => rfl
      | error failure => cases stopped

/-- `Lines` is not ready only if the socket was not, and if it has no line. -/
theorem lines_notReady {ε : Type} {lines after : Lines ε}
    (polls : lines.poll = (.ok .notReady, after)) :
    lastRead lines.socket.incoming = .ok .notReady ∧ crlf.Free after.rd := by
  cases filled : lines.fillReadBuf with
  | mk result middle =>
      obtain ⟨read, -, -⟩ := Lines.fillReadBuf_eq filled
      rw [Lines.poll, filled] at polls
      cases result with
      | error failure => cases polls
      | ok closed =>
          dsimp only at polls
          cases found : Lines.position middle.rd with
          | some pos =>
              rw [found] at polls
              cases polls
          | none =>
              rw [found] at polls
              cases closed with
              | ready closed => cases polls
              | notReady =>
                  cases polls
                  exact ⟨lastRead_of_readBuf (congrArg Prod.fst read), Lines.free_of_position found⟩

namespace Channel

def poll (channel : Channel) (rx : List Bytes) : Async (Option Bytes) :=
  match rx with
  | v :: _ => .ready (some v)
  | [] => if channel.senders then .notReady else .ready none

/-- The receiver is polled, and keeps the handle of the task if it is not ready. -/
def polled (channel : Channel) (rx : List Bytes) : Channel :=
  { channel with
    parked := channel.parked || channel.poll rx = .notReady
    answer := some (channel.poll rx) }

/-- A handle that was kept is used. -/
def signal (channel : Channel) : Channel :=
  { channel with parked := false, woken := channel.woken || channel.parked }

end Channel

namespace Call

variable {ε : Type}

def step? (call : Call ε) : CallEvent ε → Option (Call ε)
  | .receive =>
      call.peer.receive.map fun after =>
        { call with peer := after, channel := call.channel.polled call.peer.rx }
  | .flush event =>
      (call.peer.flush event).map fun after =>
        { call with
          peer := after
          write := if call.peer.lines.wr.isEmpty then call.write else some event }
  | .read =>
      call.peer.read.map fun (after, _) =>
        { call with peer := after, read := some (lastRead call.peer.lines.socket.incoming) }
  | .send line =>
      if call.channel.senders then
        some { call with
          peer := { call.peer with rx := call.peer.rx ++ [line] }
          channel := call.channel.signal }
      else none
  | .close =>
      if call.channel.senders then
        some { call with channel := { call.channel.signal with senders := false } }
      else none

/-- The call as it begins, whatever it finds. -/
def enter (peer : Peer ε) (senders parked : Bool) : Call ε where
  peer := { peer with position := .receiving 0, notified := false }
  channel := ⟨senders, parked, false, none⟩
  write := none
  read := none

def system (peer : Peer ε) (senders parked : Bool) : System (Call ε) (CallEvent ε) :=
  ⟨enter peer senders parked, step?⟩

/-- Whatever is in the queue, the task is woken for it. -/
inductive Received (notified : Bool) (rx : List Bytes) (channel : Channel) : Prop where
  | notified (itself : notified = true)
  | parked (answer : channel.answer = some .notReady) (empty : rx = []) (parked : channel.parked)
  | woken (answer : channel.answer = some .notReady) (woken : channel.woken)
  | closed (answer : channel.answer = some (.ready none)) (empty : rx = [])
      (closed : channel.senders = false)

def Flushed (wr : Bytes) (write : Option (WriteEvent ε)) : Prop :=
  wr = [] ∨ write = some .notReady

/-- There is no line in the read buffer, and what is to come waits for the socket. -/
def Drained (rd : Bytes) (read : Option (Except ε (Async Nat))) : Prop :=
  crlf.Free rd ∧ read = some (.ok .notReady)

/-- What the loops have left, when the next of them begins and when the call is over. -/
def Registered (call : Call ε) : Prop :=
  match call.peer.position with
  | .receiving _ => True
  | .flushing => Received call.peer.notified call.peer.rx call.channel
  | .reading =>
      Received call.peer.notified call.peer.rx call.channel ∧
        Flushed call.peer.lines.wr call.write
  | .idle =>
      Received call.peer.notified call.peer.rx call.channel ∧
        Flushed call.peer.lines.wr call.write ∧ Drained call.peer.lines.rd call.read
  | .finished => True

section Steps

variable {call next : Call ε} {notified : Bool} {rx : List Bytes} {channel : Channel}

theorem received_of_empty (channel : Channel) (empty : rx = []) :
    Received notified rx (channel.polled rx) := by
  subst empty
  cases senders : channel.senders with
  | true =>
      have answer : channel.poll [] = .notReady := if_pos senders
      apply Received.parked (congrArg some answer) rfl
      rw [Channel.polled, answer]
      exact Bool.or_true _
  | false =>
      have answer : channel.poll [] = .ready none := by
        rw [Channel.poll, senders]
        rfl
      exact .closed (congrArg some answer) rfl senders

theorem Received.send (received : Received notified rx channel) (line : Bytes)
    (senders : channel.senders) : Received notified (rx ++ [line]) channel.signal := by
  cases received with
  | notified itself => exact .notified itself
  | parked answer empty parked => exact .woken answer (by simp [Channel.signal, parked])
  | woken answer woken => exact .woken answer (by simp [Channel.signal, woken])
  | closed answer empty closed => cases senders.symm.trans closed

theorem Received.close (received : Received notified rx channel) (senders : channel.senders) :
    Received notified rx { channel.signal with senders := false } := by
  cases received with
  | notified itself => exact .notified itself
  | parked answer empty parked => exact .woken answer (by simp [Channel.signal, parked])
  | woken answer woken => exact .woken answer (by simp [Channel.signal, woken])
  | closed answer empty closed => cases senders.symm.trans closed

theorem registered_receive (steps : call.step? .receive = some next) : next.Registered := by
  obtain ⟨after, received, rfl⟩ := Option.map_eq_some_iff.mp steps
  cases Peer.receives received with
  | line turn queued => trivial
  | last turn queued limit => exact Received.notified rfl
  | none turn queued => exact received_of_empty call.channel queued

theorem registered_flush {event : WriteEvent ε} (registered : call.Registered)
    (steps : call.step? (.flush event) = some next) : next.Registered := by
  obtain ⟨after, flushed, rfl⟩ := Option.map_eq_some_iff.mp steps
  unfold Registered at registered
  cases Peer.flushes flushed with
  | again turn round =>
      rw [turn] at registered
      simp only [Registered, turn]
      exact registered
  | done turn round =>
      rw [turn] at registered
      refine ⟨registered, ?_⟩
      cases round with
      | flushed empty => exact Or.inl empty
      | notReady unsent =>
          right
          exact if_neg (mt List.isEmpty_iff.mp unsent)
  | failed turn round => trivial

theorem registered_read (registered : call.Registered)
    (steps : call.step? .read = some next) : next.Registered := by
  obtain ⟨⟨after, message⟩, read, rfl⟩ := Option.map_eq_some_iff.mp steps
  obtain ⟨wr, -⟩ := call.peer.lines.poll_writing
  unfold Registered at registered
  cases Peer.reads read with
  | error turn polls => trivial
  | notReady turn polls =>
      rw [turn] at registered
      obtain ⟨received, flushed⟩ := registered
      obtain ⟨stopped, free⟩ := lines_notReady polls
      rw [polls] at wr
      refine ⟨received, ?_, free, congrArg some stopped⟩
      rw [Flushed, wr]
      exact flushed
  | closed turn polls => trivial
  | line turn polls =>
      rw [turn] at registered
      obtain ⟨received, flushed⟩ := registered
      rw [polls] at wr
      simp only [Registered, turn]
      refine ⟨received, ?_⟩
      rw [Flushed, wr]
      exact flushed

theorem Registered.rechannel (registered : call.Registered)
    (position : next.peer.position = call.peer.position)
    (lines : next.peer.lines = call.peer.lines) (write : next.write = call.write)
    (read : next.read = call.read)
    (received : Received call.peer.notified call.peer.rx call.channel →
      Received next.peer.notified next.peer.rx next.channel) : next.Registered := by
  unfold Registered at registered ⊢
  rw [position, lines, write, read]
  cases turn : call.peer.position with
  | receiving i => trivial
  | flushing =>
      rw [turn] at registered
      exact received registered
  | reading =>
      rw [turn] at registered
      exact ⟨received registered.1, registered.2⟩
  | idle =>
      rw [turn] at registered
      exact ⟨received registered.1, registered.2⟩
  | finished => trivial

theorem registered_step {event : CallEvent ε} (registered : call.Registered)
    (steps : call.step? event = some next) : next.Registered := by
  cases event with
  | receive => exact registered_receive steps
  | flush event => exact registered_flush registered steps
  | read => exact registered_read registered steps
  | send line =>
      obtain ⟨senders, same⟩ := Option.ite_none_right_eq_some.mp steps
      cases same
      exact registered.rechannel rfl rfl rfl rfl fun received => received.send line senders
  | close =>
      obtain ⟨senders, same⟩ := Option.ite_none_right_eq_some.mp steps
      cases same
      exact registered.rechannel rfl rfl rfl rfl fun received => received.close senders

end Steps

theorem registered_of_run {peer : Peer ε} {senders parked : Bool} {history : List (CallEvent ε)}
    {call : Call ε} (run : (system peer senders parked).run? history = some call) :
    call.Registered :=
  (system peer senders parked).invariant Registered trivial
    (fun _ _ _ registered steps => registered_step registered steps) run

/-- What is in the queue has woken the task, or the task itself has. -/
theorem Received.wakes {notified : Bool} {rx : List Bytes} {channel : Channel}
    (received : Received notified rx channel) (queued : rx ≠ []) :
    notified = true ∨ channel.woken = true := by
  cases received with
  | notified itself => exact Or.inl itself
  | parked answer empty parked => exact absurd empty queued
  | woken answer woken => exact Or.inr woken
  | closed answer empty closed => exact absurd empty queued

/--
No unfinished work.  Let one call of `Peer::poll` begin with any peer, and let
messages come, writes and reads be answered and senders go at any time.  When
it has returned `NotReady`, then the channel was last not ready or closed, or
the task has notified itself; the write buffer is empty, or the last write was
not ready; and the last read was not ready, with no line left in the buffer.
A message that is queued then has woken the task, or will be seen because it
notified itself.
-/
theorem no_unfinished_work (peer : Peer ε) (senders parked : Bool) {history : List (CallEvent ε)}
    {call : Call ε} (run : (system peer senders parked).run? history = some call)
    (returned : call.peer.position = .idle) :
    (call.channel.answer = some .notReady ∨ call.channel.answer = some (.ready none) ∨
        call.peer.notified = true) ∧
      (call.peer.lines.wr = [] ∨ call.write = some .notReady) ∧
      call.read = some (.ok .notReady) ∧ crlf.Free call.peer.lines.rd ∧
      (call.peer.rx ≠ [] → call.peer.notified = true ∨ call.channel.woken = true) := by
  have registered := registered_of_run run
  unfold Registered at registered
  rw [returned] at registered
  obtain ⟨received, flushed, free, stopped⟩ := registered
  refine ⟨?_, flushed, stopped, free, received.wakes⟩
  cases received with
  | notified itself => exact Or.inr (Or.inr itself)
  | parked answer empty parked => exact Or.inl answer
  | woken answer woken => exact Or.inl answer
  | closed answer empty closed => exact Or.inr (Or.inl answer)

/-- One message to write, a socket that takes one byte of it, and nothing to read. -/
def sleeper : Peer Unit := ⟨[97], ⟨⟨[.notReady], []⟩, [], []⟩, [[98, 99]], .idle, false, 0⟩

def asleep : Call Unit :=
  ((system sleeper true false).run? [.receive, .receive, .flush (.wrote 1), .flush .notReady, .read,
    .send [100]]).getD (enter sleeper true false)

theorem no_unfinished_work_message_behind :
    (asleep.channel.answer = some .notReady ∨ asleep.channel.answer = some (.ready none) ∨
        asleep.peer.notified = true) ∧
      (asleep.peer.lines.wr = [] ∨ asleep.write = some .notReady) ∧
      asleep.read = some (.ok .notReady) ∧ crlf.Free asleep.peer.lines.rd ∧
      (asleep.peer.rx ≠ [] → asleep.peer.notified = true ∨ asleep.channel.woken = true) :=
  have run : (system sleeper true false).run? [.receive, .receive, .flush (.wrote 1), .flush .notReady,
      .read, .send [100]] = some asleep := rfl
  no_unfinished_work sleeper true false run rfl

end Call

/-! ## The calls of a whole server -/

section Server

variable {κ σ ε : Type}

/-- The peer is in a call, or a call has left it so, in which the channel had a sender. -/
def Calling (peer : Peer ε) : Prop :=
  ∃ (before : Peer ε) (parked : Bool) (events : List (CallEvent ε)) (call : Call ε),
    (Call.system before true parked).run? events = some call ∧ call.peer = peer ∧
      call.channel.senders = true

theorem calling_start {peer after : Peer ε} (started : peer.start = some after) : Calling after := by
  obtain ⟨-, rfl⟩ := Peer.starts started
  exact ⟨peer, false, [], _, rfl, rfl, rfl⟩

theorem Calling.next {peer after : Peer ε} (calling : Calling peer) (event : CallEvent ε)
    (moves : ∀ call : Call ε, call.peer = peer → call.channel.senders = true →
      ∃ next, call.step? event = some next ∧ next.peer = after ∧ next.channel.senders = true) :
    Calling after := by
  obtain ⟨before, parked, events, call, run, same, senders⟩ := calling
  obtain ⟨next, steps, reached, still⟩ := moves call same senders
  refine ⟨before, parked, events ++ [event], next, ?_, reached, still⟩
  rw [System.run?_snoc, run]
  exact steps

theorem Calling.receive {peer after : Peer ε} (calling : Calling peer)
    (received : peer.receive = some after) : Calling after := by
  refine calling.next .receive ?_
  rintro call rfl senders
  refine ⟨{ call with peer := after, channel := call.channel.polled call.peer.rx },
    ?_, rfl, senders⟩
  rw [Call.step?, received]
  rfl

theorem Calling.flush {peer after : Peer ε} {event : WriteEvent ε} (calling : Calling peer)
    (flushed : peer.flush event = some after) : Calling after := by
  refine calling.next (.flush event) ?_
  rintro call rfl senders
  refine ⟨{ call with peer := after, write := if call.peer.lines.wr.isEmpty then call.write else some event },
    ?_, rfl, senders⟩
  rw [Call.step?, flushed]
  rfl

theorem Calling.read {peer after : Peer ε} {message : Option Bytes} (calling : Calling peer)
    (read : peer.read = some (after, message)) : Calling after := by
  refine calling.next .read ?_
  rintro call rfl senders
  refine ⟨{ call with peer := after, read := some (lastRead call.peer.lines.socket.incoming) },
    ?_, rfl, senders⟩
  rw [Call.step?, read]
  rfl

theorem Calling.send {peer : Peer ε} (calling : Calling peer) (line : Bytes) :
    Calling { peer with rx := peer.rx ++ [line] } := by
  refine calling.next (.send line) ?_
  rintro call rfl senders
  exact ⟨_, if_pos senders, rfl, senders⟩

/-- A connection that was polled is a peer in a call, or it was one. -/
def Engaged (polled : Prop) : Task ε → Prop
  | .absent => ¬ polled
  | .naming _ => ¬ polled
  | .peer peer => polled → Calling peer
  | .dropped _ => True
  | .done => True

theorem engaged_unboundedSend {polled : Prop} {line : Bytes} (task next : Task ε)
    (sent : task.unboundedSend line = some next) (engaged : Engaged polled task) :
    Engaged polled next := by
  cases task with
  | peer receiver =>
      cases sent
      exact fun was => (engaged was).send line
  | dropped receiver =>
      cases sent
      trivial
  | absent => cases sent
  | naming lines => cases sent
  | done => cases sent

namespace Chat

variable [DecidableEq κ] [DecidableEq σ] {addr : κ → σ}

omit [DecidableEq σ] in
theorem engaged_setTask {chat : Chat κ σ ε} {j k : κ} {before task : Task ε} {polled : κ → Prop}
    (engaged : ∀ k, Engaged (polled k) (chat.tasks k)) (stands : chat.tasks j = before)
    (moves : Engaged (polled j) before → Engaged (polled j) task) :
    Engaged (polled k) ((chat.setTask j task).tasks k) := by
  subst stands
  have both := (Function.forall_update_iff chat.tasks fun i task => Engaged (polled i) task).mpr
    ⟨moves (engaged j), fun k _ => engaged k⟩
  exact both k

omit [DecidableEq σ] in
theorem engaged_moved {chat : Chat κ σ ε} {j k : κ} {peer after : Peer ε} {polled : κ → Prop}
    (engaged : ∀ k, Engaged (polled k) (chat.tasks k)) (live : chat.tasks j = .peer peer)
    (calls : Calling peer → Calling after) :
    Engaged (polled k) ((chat.setTask j (.peer after)).tasks k) :=
  engaged_setTask engaged live fun here was => calls (here was)

theorem engaged_step {chat next : Chat κ σ ε} {action : Action κ ε} {polled : κ → Prop}
    (engaged : ∀ k, Engaged (polled k) (chat.tasks k)) (other : ∀ j, action ≠ .poll j)
    (stepped : chat.step? addr action = some next) (k : κ) : Engaged (polled k) (next.tasks k) := by
  cases acts stepped with
  | accepted incoming absent => exact engaged_setTask engaged absent id
  | failed waiting polls => exact engaged_setTask engaged waiting fun _ => trivial
  | left waiting polls => exact engaged_setTask engaged waiting fun _ => trivial
  | waits waiting polls => exact engaged_setTask engaged waiting id
  | joined waiting polls =>
      exact engaged_setTask engaged waiting fun never was => absurd was never
  | polled live started => exact absurd rfl (other _)
  | received live received => exact engaged_moved engaged live (·.receive received)
  | flushed live flushed => exact engaged_moved engaged live (·.flush flushed)
  | read live reads => exact engaged_moved engaged live (·.read reads)
  | said live reads sent =>
      obtain ⟨tasks, loop, rfl⟩ := Option.map_eq_some_iff.mp sent
      rw [sendToOthers_eq_sendAll] at loop
      exact sendAll_keeps engaged_unboundedSend loop k
        (engaged_moved engaged live (·.read reads))
  | dropped live => exact engaged_setTask engaged live fun _ => trivial
  | released gone => exact engaged_setTask engaged gone fun _ => trivial

theorem engaged_poll {chat next : Chat κ σ ε} {j : κ} {polled after : κ → Prop}
    (engaged : ∀ k, Engaged (polled k) (chat.tasks k)) (same : ∀ k, k ≠ j → (after k ↔ polled k))
    (stepped : chat.step? addr (.poll j) = some next) (k : κ) : Engaged (after k) (next.tasks k) := by
  cases acts stepped with
  | polled live started =>
      revert k
      refine (Function.forall_update_iff _ _).mpr ⟨fun _ => calling_start started, fun k other => ?_⟩
      rw [same k other]
      exact engaged k

/-- In every run of the server, a peer that was polled is as one call has left it or has it now. -/
theorem calling_of_run {history : List (Action κ ε)} {chat : Chat κ σ ε}
    (run : (system addr).run? history = some chat) {k : κ} (polled : .poll k ∈ history)
    {peer : Peer ε} (live : chat.tasks k = .peer peer) : Calling peer := by
  have engaged : ∀ k, Engaged (.poll k ∈ history) (chat.tasks k) := by
    refine (system addr).run?_induction
      (motive := fun history chat => ∀ k, Engaged (.poll k ∈ history) (chat.tasks k)) ?_ ?_ run
    · exact fun _ => List.not_mem_nil
    · intro earlier middle action next _ engaged stepped
      have added : ∀ k, action ≠ .poll k → (.poll k ∈ earlier ++ [action] ↔ .poll k ∈ earlier) := by
        intro k other
        rw [List.mem_append, List.mem_singleton]
        exact or_iff_left other.symm
      by_cases starts : ∃ j, action = .poll j
      · obtain ⟨j, rfl⟩ := starts
        have polls : middle.step? addr (.poll j) = some next := stepped
        exact engaged_poll engaged
          (fun k other => added k fun same => other (Action.poll.inj same).symm) polls
      · rw [not_exists] at starts
        intro k
        rw [added k (starts k)]
        exact engaged_step engaged starts stepped k
  have here := engaged k
  rw [live] at here
  exact here polled

end Chat

end Server

end RustDemo.ChatNew
