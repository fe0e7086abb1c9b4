import RustDemo.ChatNew.Wakeups

/-!
# Calls, read by read

A round of the loop that reads lines is itself a loop over the socket: it ends
only when a read is not ready, fails, or meets the end.  Here each read of it is
a step, and what it meets is known only then, so that a client can send while
the call goes on.
-/

namespace RustDemo.ChatNew

open RustDemo.Stream RustDemo.Transition

namespace Lines

variable {ε : Type}

/--
One round of the loop of `fill_read_buf`: the result it returns, if it does not
go round again.  A read that meets nothing at all is one of zero bytes.
-/
def fillReadBufRound (lines : Lines ε) :
    Option (ReadEvent ε) → Option (Except ε (Async Unit)) × Lines ε
  | some (.chunk bytes _) => (none, { lines with rd := lines.rd ++ bytes })
  | some .notReady => (some (.ok .notReady), lines)
  | some (.error failure) => (some (.error failure), lines)
  | none => (some (.ok (.ready ())), lines)

/-- What `poll` does when it has filled the buffer. -/
def takeLine (lines : Lines ε) (filled : Async Unit) : Async (Option Bytes) × Lines ε :=
  match position lines.rd with
  | some pos =>
      let line := lines.rd.take (pos + 2)
      (.ready (some (line.take pos)), { lines with rd := lines.rd.drop (pos + 2) })
  | none =>
      match filled with
      | .ready () => (.ready none, lines)
      | .notReady => (.notReady, lines)

theorem poll_eq (lines : Lines ε) :
    lines.poll = match lines.fillReadBuf with
      | (.error failure, lines) => (.error failure, lines)
      | (.ok filled, lines) => (.ok (lines.takeLine filled).1, (lines.takeLine filled).2) := by
  rw [poll]
  rcases lines.fillReadBuf with ⟨failure | filled, after⟩
  · rfl
  · dsimp only [takeLine]
    cases position after.rd with
    | some pos => rfl
    | none => cases filled <;> rfl

/-- The codec with other reads to come. -/
def withIncoming (lines : Lines ε) (incoming : List (ReadEvent ε)) : Lines ε :=
  { lines with socket := { lines.socket with incoming := incoming } }

theorem takeLine_socket (lines : Lines ε) (filled : Async Unit) :
    (lines.takeLine filled).2.socket = lines.socket := by
  unfold takeLine
  cases position lines.rd with
  | some pos => rfl
  | none => cases filled <;> rfl

theorem takeLine_withIncoming (lines : Lines ε) (filled : Async Unit)
    (incoming : List (ReadEvent ε)) :
    (lines.withIncoming incoming).takeLine filled =
      ((lines.takeLine filled).1, (lines.takeLine filled).2.withIncoming incoming) := by
  dsimp only [takeLine, withIncoming]
  cases position lines.rd with
  | some pos => rfl
  | none => cases filled <;> rfl

theorem pollFlushRound_withIncoming (lines : Lines ε) (event : WriteEvent ε)
    (incoming : List (ReadEvent ε)) :
    (lines.withIncoming incoming).pollFlushRound event =
      (lines.pollFlushRound event).map fun round => (round.1, round.2.withIncoming incoming) := by
  have same : (lines.withIncoming incoming).wr = lines.wr := rfl
  unfold pollFlushRound
  rw [same]
  split
  · rfl
  · cases event with
    | wrote n =>
        dsimp only
        split <;> rfl
    | notReady => rfl
    | error failure => rfl

end Lines

namespace Peer

variable {ε : Type}

def withIncoming (peer : Peer ε) (incoming : List (ReadEvent ε)) : Peer ε :=
  { peer with lines := peer.lines.withIncoming incoming }

theorem receive_withIncoming (peer : Peer ε) (incoming : List (ReadEvent ε)) :
    (peer.withIncoming incoming).receive =
      peer.receive.map fun after => after.withIncoming incoming := by
  obtain ⟨name, lines, rx, position, notified, since⟩ := peer
  cases position with
  | receiving i =>
      cases rx with
      | nil => rfl
      | cons v rx =>
          dsimp only [withIncoming, receive]
          split <;> rfl
  | _ => rfl

theorem flush_withIncoming (peer : Peer ε) (event : WriteEvent ε)
    (incoming : List (ReadEvent ε)) :
    (peer.withIncoming incoming).flush event =
      (peer.flush event).map fun after => after.withIncoming incoming := by
  obtain ⟨name, lines, rx, position, notified, since⟩ := peer
  cases position with
  | flushing =>
      dsimp only [withIncoming, flush]
      rw [Lines.pollFlushRound_withIncoming]
      rcases lines.pollFlushRound event with _ | ⟨_ | failure | answer, after⟩ <;> rfl
  | _ => rfl

theorem flush_turn {peer after : Peer ε} {event : WriteEvent ε}
    (flushed : peer.flush event = some after) : peer.position = .flushing := by
  cases flushes flushed <;> assumption

theorem flush_incoming {peer after : Peer ε} {event : WriteEvent ε}
    (flushed : peer.flush event = some after) :
    after.lines.socket.incoming = peer.lines.socket.incoming := by
  cases flushes flushed with
  | again turn round => cases round; rfl
  | done turn round => cases round <;> rfl
  | failed turn round => cases round; rfl

theorem read_turn {peer after : Peer ε} {message : Option Bytes}
    (read : peer.read = some (after, message)) : peer.position = .reading := by
  cases reads read <;> assumption

/-- A round that reads has left the loop, or it is to read again. -/
theorem read_goesOn {peer after : Peer ε} {message : Option Bytes}
    (read : peer.read = some (after, message)) (busy : after.position ≠ .idle)
    (alive : after.position ≠ .finished) : after.position = .reading := by
  cases reads read with
  | error turn polls => exact absurd rfl alive
  | notReady turn polls => exact absurd rfl busy
  | closed turn polls => exact absurd rfl alive
  | line turn polls => exact turn

end Peer

/-- One call of `poll`, and the answer of `fill_read_buf` when its loop is over. -/
structure Tick (ε : Type) where
  peer : Peer ε
  senders : Bool
  filled : Option (Async Unit)

/-- The rounds of all loops, and what other threads do to the channel. -/
inductive TickEvent (ε : Type) where
  | receive
  | flush (event : WriteEvent ε)
  | readBuf (event : Option (ReadEvent ε))
  | takeLine
  | send (line : Bytes)
  | close

namespace Tick

variable {ε : Type}

def step? (tick : Tick ε) : TickEvent ε → Option (Tick ε)
  | .receive => tick.peer.receive.map fun after => { tick with peer := after }
  | .flush event => (tick.peer.flush event).map fun after => { tick with peer := after }
  | .readBuf event =>
      match tick.peer.position, tick.filled with
      | .reading, none =>
          match tick.peer.lines.fillReadBufRound event with
          | (none, lines) => some { tick with peer := { tick.peer with lines := lines } }
          | (some (.ok closed), lines) =>
              some { tick with peer := { tick.peer with lines := lines }, filled := some closed }
          | (some (.error _), lines) =>
              some { tick with peer := { tick.peer with lines := lines, position := .finished } }
      | _, _ => none
  | .takeLine =>
      match tick.peer.position, tick.filled with
      | .reading, some closed =>
          match tick.peer.lines.takeLine closed with
          | (.ready (some _), lines) =>
              some { tick with peer := { tick.peer with lines := lines }, filled := none }
          | (.ready none, lines) =>
              some { tick with peer := { tick.peer with lines := lines, position := .finished } }
          | (.notReady, lines) =>
              some { tick with peer := { tick.peer with lines := lines, position := .idle } }
      | _, _ => none
  | .send line =>
      if tick.senders then
        some { tick with peer := { tick.peer with rx := tick.peer.rx ++ [line] } }
      else none
  | .close => if tick.senders then some { tick with senders := false } else none

def enter (peer : Peer ε) (senders : Bool) : Tick ε :=
  ⟨{ peer with position := .receiving 0, notified := false }, senders, none⟩

def system (peer : Peer ε) (senders : Bool) : System (Tick ε) (TickEvent ε) :=
  ⟨enter peer senders, step?⟩

inductive Fills (tick : Tick ε) : Option (ReadEvent ε) → Tick ε → Prop where
  | chunk (turn : tick.peer.position = .reading) (filling : tick.filled = none) (bytes : Bytes)
      (nonempty : bytes ≠ []) :
      Fills tick (some (.chunk bytes nonempty))
        { tick with peer :=
          { tick.peer with lines := { tick.peer.lines with rd := tick.peer.lines.rd ++ bytes } } }
  | stopped {event : Option (ReadEvent ε)} (turn : tick.peer.position = .reading)
      (filling : tick.filled = none) (closed : Async Unit) :
      Fills tick event { tick with filled := some closed }
  | failed {event : Option (ReadEvent ε)} (turn : tick.peer.position = .reading)
      (filling : tick.filled = none) :
      Fills tick event { tick with peer := { tick.peer with position := .finished } }

theorem fills {tick next : Tick ε} {event : Option (ReadEvent ε)}
    (steps : tick.step? (.readBuf event) = some next) : Fills tick event next := by
  rw [step?] at steps
  split at steps
  · rename_i turn filling
    rcases event with _ | ⟨bytes, nonempty⟩ | _ | failure
    · cases steps
      exact .stopped turn filling _
    · cases steps
      exact .chunk turn filling bytes nonempty
    · cases steps
      exact .stopped turn filling _
    · cases steps
      exact .failed turn filling
  · cases steps

inductive Takes (tick : Tick ε) : Tick ε → Prop where
  | line {line rd : Bytes} (turn : tick.peer.position = .reading) {closed : Async Unit}
      (filled : tick.filled = some closed)
      (found : crlf.cut tick.peer.lines.rd = some (line, rd)) :
      Takes tick { tick with
        peer := { tick.peer with lines := { tick.peer.lines with rd := rd } }, filled := none }
  | returned (turn : tick.peer.position = .reading) {closed : Async Unit}
      (filled : tick.filled = some closed) {position : Position}
      (ended : position = .idle ∨ position = .finished) :
      Takes tick { tick with peer := { tick.peer with position := position } }

theorem takes {tick next : Tick ε} (steps : tick.step? .takeLine = some next) :
    Takes tick next := by
  rw [step?] at steps
  split at steps
  · rename_i closed turn filled
    unfold Lines.takeLine at steps
    cases found : Lines.position tick.peer.lines.rd with
    | some pos =>
        rw [found] at steps
        cases steps
        exact .line turn filled (Lines.cut_of_position found)
    | none =>
        rw [found] at steps
        cases closed with
        | ready closed =>
            cases steps
            exact .returned turn filled (Or.inr rfl)
        | notReady =>
            cases steps
            exact .returned turn filled (Or.inl rfl)
  · cases steps

/-! ## Every call is such a call -/

def arrived (history : List (TickEvent ε)) : Bytes :=
  history.flatMap fun event =>
    match event with
    | .readBuf (some (.chunk bytes _)) => bytes
    | _ => []

theorem arrived_append (first second : List (TickEvent ε)) :
    arrived (first ++ second) = arrived first ++ arrived second := List.flatMap_append

/-- The call when `fill_read_buf` has returned. -/
def filling (peer : Peer ε) (senders : Bool) (rd : Bytes) : Except ε (Async Unit) → Tick ε
  | .ok closed => ⟨{ peer with lines := { peer.lines with rd := rd } }, senders, some closed⟩
  | .error _ =>
      ⟨{ peer with lines := { peer.lines with rd := rd }, position := .finished }, senders, none⟩

variable {start : Peer ε} {began : Bool}

theorem exists_reads {peer : Peer ε} (turn : peer.position = .reading) (senders : Bool)
    (incoming : List (ReadEvent ε)) :
    ∃ events : List (TickEvent ε),
      arrived events ++ Lines.received (Lines.readBuf peer.lines.rd incoming).2.1 =
        Lines.received incoming ∧
      (system start began).runFrom? ⟨peer, senders, none⟩ events =
        some (filling peer senders (Lines.readBuf peer.lines.rd incoming).2.2
          (Lines.readBuf peer.lines.rd incoming).1) := by
  obtain ⟨name, ⟨socket, held, wr⟩, rx, position, notified, since⟩ := peer
  cases turn
  dsimp only
  induction incoming generalizing held with
  | nil => exact ⟨[.readBuf none], rfl, rfl⟩
  | cons event incoming ih =>
      cases event with
      | chunk bytes nonempty =>
          obtain ⟨events, met, runs⟩ := ih (held ++ bytes)
          refine ⟨.readBuf (some (.chunk bytes nonempty)) :: events, ?_, runs⟩
          change (bytes ++ arrived events) ++ _ = bytes ++ _
          rw [List.append_assoc]
          exact congrArg (bytes ++ ·) met
      | notReady => exact ⟨[.readBuf (some .notReady)], rfl, rfl⟩
      | error failure => exact ⟨[.readBuf (some (.error failure))], rfl, rfl⟩

/-- A round that reads is made of reads and, unless one of them fails, of the end of a poll. -/
theorem exists_rounds {peer after : Peer ε} {message : Option Bytes} (senders : Bool)
    (read : peer.read = some (after, message)) (incoming : List (ReadEvent ε)) :
    ∃ (events : List (TickEvent ε)) (filled : Option (Async Unit)),
      arrived events ++ Lines.received after.lines.socket.incoming =
        Lines.received peer.lines.socket.incoming ∧
      (after.position = .reading → filled = none) ∧
      (system start began).runFrom? ⟨peer.withIncoming incoming, senders, none⟩ events =
        some ⟨after.withIncoming incoming, senders, filled⟩ := by
  have turn := Peer.read_turn read
  obtain ⟨events, met, runs⟩ := @exists_reads ε start began (peer.withIncoming incoming) turn
    senders peer.lines.socket.incoming
  obtain ⟨result, later, rd, reads⟩ : ∃ result later rd,
      Lines.readBuf peer.lines.rd peer.lines.socket.incoming = (result, later, rd) :=
    ⟨_, _, _, rfl⟩
  change arrived events ++ Lines.received (Lines.readBuf peer.lines.rd _).2.1 = _ at met
  change _ = some (filling _ senders (Lines.readBuf peer.lines.rd _).2.2
    (Lines.readBuf peer.lines.rd _).1) at runs
  rw [reads] at met runs
  have polls := Lines.poll_eq peer.lines
  simp only [Lines.fillReadBuf, reads] at polls
  rw [Peer.read, turn] at read
  dsimp only at read
  rw [polls] at read
  cases result with
  | error failure =>
      cases read
      exact ⟨events, none, met, fun _ => rfl, runs⟩
  | ok closed =>
      dsimp only at read
      have ends : ∀ next, (filling (peer.withIncoming incoming) senders rd (.ok closed)).step?
          .takeLine = some next →
            (system start began).runFrom? ⟨peer.withIncoming incoming, senders, none⟩
              (events ++ [.takeLine]) = some next := by
        intro next steps
        rw [System.runFrom?_append, runs]
        exact congrArg (·.bind some) steps
      -- what is taken from the buffer does not depend on the reads to come
      have same := Lines.takeLine_withIncoming
        ⟨⟨later, peer.lines.socket.accepted⟩, rd, peer.lines.wr⟩ closed incoming
      have socket := Lines.takeLine_socket ⟨⟨later, peer.lines.socket.accepted⟩, rd, peer.lines.wr⟩
        closed
      rcases taken : Lines.takeLine ⟨⟨later, peer.lines.socket.accepted⟩, rd, peer.lines.wr⟩ closed
        with ⟨answer, left⟩
      rw [taken] at read same socket
      have balance : arrived (events ++ [.takeLine]) ++ Lines.received left.socket.incoming =
          Lines.received peer.lines.socket.incoming := by
        rw [arrived_append, socket, ← met]
        exact congrArg (· ++ _) (List.append_nil _)
      dsimp only [Lines.withIncoming] at same
      rcases answer with (_ | line) | _
      · cases read
        refine ⟨_, some closed, balance, nofun, ends _ ?_⟩
        simp only [step?, filling, Peer.withIncoming, Lines.withIncoming, turn, same]
      · cases read
        refine ⟨_, none, balance, fun _ => rfl, ends _ ?_⟩
        simp only [step?, filling, Peer.withIncoming, Lines.withIncoming, turn, same]
      · cases read
        refine ⟨_, some closed, balance, nofun, ends _ ?_⟩
        simp only [step?, filling, Peer.withIncoming, Lines.withIncoming, turn, same]

/--
Reads that come one by one lead to the same call: they meet the bytes that it has
taken from its socket.
-/
def Ticked (peer : Peer ε) (senders : Bool) (call : Call ε) : Prop :=
  ∃ (events : List (TickEvent ε)) (filled : Option (Async Unit)),
    arrived events ++ Lines.received call.peer.lines.socket.incoming =
      Lines.received peer.lines.socket.incoming ∧
    (call.peer.position ≠ .idle → call.peer.position ≠ .finished → filled = none) ∧
    (system peer senders).run? events =
      some ⟨call.peer.withIncoming peer.lines.socket.incoming, call.channel.senders, filled⟩

theorem Ticked.next {peer : Peer ε} {senders : Bool} {call after : Call ε}
    (ticked : Ticked peer senders call) (event : TickEvent ε) (quiet : arrived [event] = [])
    (same : after.peer.lines.socket.incoming = call.peer.lines.socket.incoming)
    (busy : after.peer.position = call.peer.position ∨
      call.peer.position ≠ .idle ∧ call.peer.position ≠ .finished)
    (steps : ∀ filled, Tick.step? ⟨call.peer.withIncoming peer.lines.socket.incoming,
      call.channel.senders, filled⟩ event = some ⟨after.peer.withIncoming
        peer.lines.socket.incoming, after.channel.senders, filled⟩) :
    Ticked peer senders after := by
  obtain ⟨events, filled, met, open', runs⟩ := ticked
  refine ⟨events ++ [event], filled, ?_, ?_, ?_⟩
  · rw [arrived_append, quiet, List.append_nil, same]
    exact met
  · rcases busy with position | ⟨awake, alive⟩
    · rw [position]
      exact open'
    · exact fun _ _ => open' awake alive
  · rw [System.run?_snoc, runs]
    exact steps filled

theorem Ticked.read {peer after : Peer ε} {senders : Bool} {call : Call ε}
    {message : Option Bytes} (ticked : Ticked peer senders call)
    (read : call.peer.read = some (after, message)) (result : Option (Except ε (Async Nat))) :
    Ticked peer senders { call with peer := after, read := result } := by
  obtain ⟨events, filled, met, open', runs⟩ := ticked
  have turn := Peer.read_turn read
  obtain rfl : filled = none := open' (by simp [turn]) (by simp [turn])
  obtain ⟨more, later, reads, closes, goes⟩ := @exists_rounds ε peer senders call.peer after
    message call.channel.senders read peer.lines.socket.incoming
  refine ⟨events ++ more, later, ?_, ?_, ?_⟩
  · rw [arrived_append, List.append_assoc, reads, met]
  · intro busy alive
    exact closes (Peer.read_goesOn read busy alive)
  · rw [System.run?_append, runs]
    exact goes

theorem ticked_step {peer : Peer ε} {senders : Bool} {call next : Call ε} {event : CallEvent ε}
    (ticked : Ticked peer senders call) (steps : call.step? event = some next) :
    Ticked peer senders next := by
  cases event with
  | receive =>
      obtain ⟨after, received, rfl⟩ := Option.map_eq_some_iff.mp steps
      have moved := Peer.receive_withIncoming call.peer peer.lines.socket.incoming
      rw [received] at moved
      refine ticked.next .receive rfl ?_ (Or.inr ?_) fun filled => ?_
      · cases Peer.receives received <;> rfl
      · cases Peer.receives received with
        | _ turn => simp [turn]
      · rw [step?, moved]
        rfl
  | flush event =>
      obtain ⟨after, flushed, rfl⟩ := Option.map_eq_some_iff.mp steps
      have moved := Peer.flush_withIncoming call.peer event peer.lines.socket.incoming
      rw [flushed] at moved
      refine ticked.next (.flush event) rfl (Peer.flush_incoming flushed) (Or.inr ?_)
        fun filled => ?_
      · simp [Peer.flush_turn flushed]
      · rw [step?, moved]
        rfl
  | read =>
      obtain ⟨⟨after, message⟩, read, rfl⟩ := Option.map_eq_some_iff.mp steps
      exact ticked.read read _
  | send line =>
      obtain ⟨present, same⟩ := Option.ite_none_right_eq_some.mp steps
      cases same
      exact ticked.next (.send line) rfl rfl (Or.inl rfl) fun _ => if_pos present
  | close =>
      obtain ⟨present, same⟩ := Option.ite_none_right_eq_some.mp steps
      cases same
      exact ticked.next .close rfl rfl (Or.inl rfl) fun _ => if_pos present

/-- Every call whose reads are given beforehand is one whose reads come one by one. -/
theorem ticked_of_run {peer : Peer ε} {senders parked : Bool} {history : List (CallEvent ε)}
    {call : Call ε} (run : (Call.system peer senders parked).run? history = some call) :
    Ticked peer senders call :=
  (Call.system peer senders parked).invariant (Ticked peer senders)
    ⟨[], none, rfl, fun _ _ => rfl, rfl⟩ (fun _ _ _ ticked steps => ticked_step ticked steps) run

end Tick

end RustDemo.ChatNew
