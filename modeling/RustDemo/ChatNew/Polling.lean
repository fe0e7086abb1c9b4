import RustDemo.ChatNew.Ticks

/-!
# The end of a call

The loop that receives makes ten rounds at most, the one that flushes one for
each byte and one more.  So a call of `Peer::poll` comes to its reads, however
many messages other threads send while it goes on: it takes the first ten of
them, and no other counts.  `LINES_PER_TICK` limits nothing that is read: each
byte that comes while the call reads is paid for by two more rounds, and a call
whose client keeps sending does not return.
-/

namespace RustDemo.ChatNew

open RustDemo.Stream RustDemo.Transition

namespace Tick

variable {ε : Type}

/-- The rounds that the call itself has made. -/
def rounds (history : List (TickEvent ε)) : Nat :=
  history.countP fun event =>
    match event with
    | .receive => true
    | .flush _ => true
    | .readBuf _ => true
    | .takeLine => true
    | _ => false

def sentLines (history : List (TickEvent ε)) : List Bytes :=
  history.filterMap fun event =>
    match event with
    | .send line => some line
    | _ => none

/-- The bytes that the call has to write when it has taken these lines. -/
def toWrite (peer : Peer ε) (taken : List Bytes) : Bytes := peer.lines.wr ++ taken.flatten

/--
The rounds of a call that has taken these lines are paid for by what is no
longer there.  A byte that has come pays for the read that brought it, and then,
with the other byte that ends its line, for the poll that takes the line.
-/
def Paid (peer : Peer ε) (taken : List Bytes) (rounds arrived : Nat) (tick : Tick ε) : Prop :=
  match tick.peer.position with
  | .receiving i =>
      rounds = i ∧ taken.length = i ∧ i < Peer.LINES_PER_TICK ∧
        tick.peer.lines.wr = toWrite peer taken ∧ tick.peer.lines.rd = peer.lines.rd ∧
        tick.filled = none
  | .flushing =>
      rounds + tick.peer.lines.wr.length ≤ Peer.LINES_PER_TICK + (toWrite peer taken).length ∧
        tick.peer.lines.rd = peer.lines.rd ∧ tick.filled = none
  | .reading =>
      rounds + tick.peer.lines.rd.length ≤
        Peer.LINES_PER_TICK + (toWrite peer taken).length + 1 + peer.lines.rd.length +
          2 * arrived + tick.filled.isSome.toNat
  | .idle | .finished =>
      rounds ≤ Peer.LINES_PER_TICK + (toWrite peer taken).length + 1 + peer.lines.rd.length +
        2 * arrived + 2

/-- What the call has taken are the first lines of the channel, and no more than ten. -/
structure Spent (peer : Peer ε) (history : List (TickEvent ε)) (tick : Tick ε) (taken : List Bytes) :
    Prop where
  queue : taken ++ tick.peer.rx = peer.rx ++ sentLines history
  limit : taken.length ≤ Peer.LINES_PER_TICK
  paid : Paid peer taken (rounds history) (arrived history).length tick

theorem rounds_append (first second : List (TickEvent ε)) :
    rounds (first ++ second) = rounds first + rounds second := List.countP_append

theorem sentLines_append (first second : List (TickEvent ε)) :
    sentLines (first ++ second) = sentLines first ++ sentLines second := List.filterMap_append

theorem toWrite_snoc (peer : Peer ε) (taken : List Bytes) (v : Bytes) :
    toWrite peer (taken ++ [v]) = toWrite peer taken ++ v := by
  simp [toWrite]

theorem below_limit {peer after : Peer ε} {i j : Nat} (received : peer.receive = some after)
    (turn : peer.position = .receiving i) (goesOn : after.position = .receiving j) :
    j ≠ Peer.LINES_PER_TICK := by
  unfold Peer.receive at received
  rw [turn] at received
  dsimp only at received
  split at received
  · split at received
    · cases received
      cases goesOn
    · rename_i below
      cases received
      cases goesOn
      exact below
  · cases received
    cases goesOn

section Steps

variable {peer : Peer ε} {history : List (TickEvent ε)} {tick next : Tick ε} {taken : List Bytes}

theorem Spent.round {event : TickEvent ε} (spent : Spent peer history tick taken)
    (quiet : sentLines [event] = []) (rx : next.peer.rx = tick.peer.rx)
    (paid : Paid peer taken (rounds history + rounds [event])
      ((arrived history).length + (arrived [event]).length) next) :
    Spent peer (history ++ [event]) next taken := by
  refine ⟨?_, spent.limit, ?_⟩
  · rw [sentLines_append, quiet, List.append_nil, rx]
    exact spent.queue
  · rw [rounds_append, arrived_append, List.length_append]
    exact paid

theorem spent_receive (spent : Spent peer history tick taken)
    (steps : tick.step? .receive = some next) :
    ∃ taken, Spent peer (history ++ [.receive]) next taken := by
  obtain ⟨queue, limit, paid⟩ := spent
  obtain ⟨after, received, rfl⟩ := Option.map_eq_some_iff.mp steps
  have one : rounds (history ++ [.receive]) = rounds history + 1 := rounds_append history _
  have quiet : sentLines (history ++ [.receive]) = sentLines history :=
    (sentLines_append history _).trans (List.append_nil _)
  unfold Paid at paid
  cases Peer.receives received with
  | @line i v rx turn queued =>
      rw [turn] at paid
      obtain ⟨made, count, within, wr, rd, filling⟩ := paid
      have below := below_limit received turn rfl
      have length : (taken ++ [v]).length = i + 1 := by
        rw [List.length_append, count]
        rfl
      refine ⟨taken ++ [v], ?_, by omega, by omega, length, by omega, ?_, rd, filling⟩
      · rw [quiet, ← queue, queued, List.append_assoc]
        rfl
      · rw [toWrite_snoc, ← wr]
        rfl
  | @last i v rx turn queued atLimit =>
      rw [turn] at paid
      obtain ⟨made, count, within, wr, rd, filling⟩ := paid
      have length : (taken ++ [v]).length = i + 1 := by
        rw [List.length_append, count]
        rfl
      refine ⟨taken ++ [v], ?_, by omega, ?_, rd, filling⟩
      · rw [quiet, ← queue, queued, List.append_assoc]
        rfl
      · have written : (tick.peer.lines.buffer v).wr = toWrite peer (taken ++ [v]) := by
          rw [toWrite_snoc, ← wr]
          rfl
        change _ + (tick.peer.lines.buffer v).wr.length ≤ _
        rw [written]
        omega
  | @none i turn queued =>
      rw [turn] at paid
      obtain ⟨made, count, within, wr, rd, filling⟩ := paid
      refine ⟨taken, ?_, limit, ?_, rd, filling⟩
      · rw [quiet]
        exact queue
      · change _ + tick.peer.lines.wr.length ≤ _
        rw [wr]
        omega

theorem spent_flush {event : WriteEvent ε} (spent : Spent peer history tick taken)
    (steps : tick.step? (.flush event) = some next) :
    Spent peer (history ++ [.flush event]) next taken := by
  obtain ⟨after, flushed, rfl⟩ := Option.map_eq_some_iff.mp steps
  have paid := spent.paid
  unfold Paid at paid
  rw [Peer.flush_turn flushed] at paid
  obtain ⟨paid, rd, filling⟩ := paid
  cases Peer.flushes flushed with
  | again turn round =>
      refine spent.round rfl rfl ?_
      simp only [Paid, turn]
      cases round with
      | @wrote n positive within =>
          refine ⟨?_, rd, filling⟩
          rw [List.length_drop]
          change rounds _ + 1 + _ ≤ _
          omega
  | @done answer lines turn round =>
      refine spent.round rfl rfl ?_
      have same : lines.rd = tick.peer.lines.rd := by
        cases round with
        | flushed empty => rfl
        | notReady unsent => rfl
      change rounds _ + 1 + lines.rd.length ≤ _
      rw [same, rd]
      omega
  | failed turn round =>
      refine spent.round rfl rfl ?_
      change rounds _ + 1 ≤ _
      omega

theorem spent_readBuf {event : Option (ReadEvent ε)} (spent : Spent peer history tick taken)
    (steps : tick.step? (.readBuf event) = some next) :
    Spent peer (history ++ [.readBuf event]) next taken := by
  have paid := spent.paid
  unfold Paid at paid
  cases fills steps with
  | chunk turn filling bytes nonempty =>
      rw [turn, filling] at paid
      refine spent.round rfl rfl ?_
      have grown : 0 < bytes.length := List.length_pos_iff.mpr nonempty
      have came : arrived [TickEvent.readBuf (some (ReadEvent.chunk bytes nonempty : ReadEvent ε))] =
          bytes := List.append_nil _
      change _ ≤ _ + 0 at paid
      simp only [Paid, turn, filling, List.length_append, came]
      change rounds _ + 1 + _ ≤ _ + 0
      omega
  | stopped turn filling closed =>
      rw [turn, filling] at paid
      refine spent.round rfl rfl ?_
      change _ ≤ _ + 0 at paid
      simp only [Paid, turn]
      change rounds _ + 1 + _ ≤ _ + 1
      omega
  | failed turn filling =>
      rw [turn, filling] at paid
      refine spent.round rfl rfl ?_
      change _ ≤ _ + 0 at paid
      change rounds _ + 1 ≤ _
      omega

theorem spent_takeLine (spent : Spent peer history tick taken)
    (steps : tick.step? .takeLine = some next) :
    Spent peer (history ++ [.takeLine]) next taken := by
  have paid := spent.paid
  unfold Paid at paid
  cases takes steps with
  | @line line rd turn closed filled found =>
      rw [turn, filled] at paid
      refine spent.round rfl rfl ?_
      have shorter : rd.length + 2 ≤ tick.peer.lines.rd.length := by
        rw [(Terminator.cut_spec found).1]
        simp [crlf]
      change _ ≤ _ + 1 at paid
      simp only [Paid, turn]
      change rounds _ + 1 + _ ≤ _ + 0
      omega
  | @returned turn closed filled position ended =>
      rw [turn, filled] at paid
      refine spent.round rfl rfl ?_
      change _ ≤ _ + 1 at paid
      have bound : rounds history + 1 ≤ Peer.LINES_PER_TICK + (toWrite peer taken).length + 1 +
          peer.lines.rd.length + 2 * (arrived history).length + 2 := by omega
      rcases ended with rfl | rfl <;> exact bound

/-- What other threads do costs the call nothing. -/
theorem spent_other {event : TickEvent ε} (spent : Spent peer history tick taken)
    (free : rounds [event] = 0) (none : arrived [event] = [])
    (position : next.peer.position = tick.peer.position) (lines : next.peer.lines = tick.peer.lines)
    (filled : next.filled = tick.filled) (rx : next.peer.rx = tick.peer.rx ++ sentLines [event]) :
    Spent peer (history ++ [event]) next taken := by
  obtain ⟨queue, limit, paid⟩ := spent
  refine ⟨?_, limit, ?_⟩
  · rw [sentLines_append, rx, ← List.append_assoc, ← List.append_assoc, queue]
  · unfold Paid at paid ⊢
    rw [position, lines, filled, rounds_append, free, arrived_append, none, List.append_nil]
    exact paid

theorem spent_step {event : TickEvent ε} (spent : Spent peer history tick taken)
    (steps : tick.step? event = some next) :
    ∃ taken, Spent peer (history ++ [event]) next taken := by
  cases event with
  | receive => exact spent_receive spent steps
  | flush event => exact ⟨taken, spent_flush spent steps⟩
  | readBuf event => exact ⟨taken, spent_readBuf spent steps⟩
  | takeLine => exact ⟨taken, spent_takeLine spent steps⟩
  | send line =>
      obtain ⟨senders, same⟩ := Option.ite_none_right_eq_some.mp steps
      cases same
      exact ⟨taken, spent_other spent rfl rfl rfl rfl rfl rfl⟩
  | close =>
      obtain ⟨senders, same⟩ := Option.ite_none_right_eq_some.mp steps
      cases same
      exact ⟨taken, spent_other spent rfl rfl rfl rfl rfl (List.append_nil _).symm⟩

end Steps

theorem spent_of_run {peer : Peer ε} {senders : Bool} {history : List (TickEvent ε)}
    {tick : Tick ε} (run : (system peer senders).run? history = some tick) :
    ∃ taken, Spent peer history tick taken := by
  refine (system peer senders).run?_induction
    (motive := fun history tick => ∃ taken, Spent peer history tick taken) ?_ ?_ run
  · have none : toWrite peer [] = peer.lines.wr := List.append_nil _
    exact ⟨[], (List.append_nil _).symm, Nat.zero_le _, rfl, rfl, by decide, none.symm, rfl, rfl⟩
  · rintro earlier middle event next _ ⟨taken, spent⟩ steps
    exact spent_step spent steps

def Possible (wr : Bytes) : WriteEvent ε → Prop
  | .wrote n => 0 < n ∧ n ≤ wr.length
  | _ => True

/-- The next round of a call; it has none when it has returned. -/
def nextRound (tick : Tick ε) (write : WriteEvent ε) (read : Option (ReadEvent ε)) :
    Option (TickEvent ε) :=
  match tick.peer.position with
  | .receiving _ => some .receive
  | .flushing => some (.flush write)
  | .reading =>
      match tick.filled with
      | none => some (.readBuf read)
      | some _ => some .takeLine
  | .idle | .finished => none

theorem exists_flushRound {lines : Lines ε} {write : WriteEvent ε} (possible : Possible lines.wr write) :
    ∃ round, lines.pollFlushRound write = some round := by
  unfold Lines.pollFlushRound
  split
  · exact ⟨_, rfl⟩
  · cases write with
    | wrote n => exact ⟨_, if_pos possible⟩
    | notReady => exact ⟨_, rfl⟩
    | error failure => exact ⟨_, rfl⟩

/-- A round that comes next can be made, whatever a write or a read answers. -/
theorem exists_step {tick : Tick ε} {write : WriteEvent ε} {read : Option (ReadEvent ε)}
    (possible : Possible tick.peer.lines.wr write) {event : TickEvent ε}
    (comes : tick.nextRound write read = some event) : ∃ next, tick.step? event = some next := by
  unfold nextRound at comes
  rw [← Option.isSome_iff_exists]
  cases turn : tick.peer.position with
  | receiving i =>
      rw [turn] at comes
      cases comes
      rw [step?, Option.isSome_map, Peer.receive, turn]
      cases tick.peer.rx with
      | nil => rfl
      | cons v rx =>
          dsimp only
          split <;> rfl
  | flushing =>
      rw [turn] at comes
      cases comes
      rw [step?, Option.isSome_map, Peer.flush, turn]
      obtain ⟨⟨result, lines⟩, round⟩ := exists_flushRound possible
      dsimp only
      rw [round]
      rcases result with _ | failure | written <;> rfl
  | reading =>
      rw [turn] at comes
      cases open' : tick.filled with
      | none =>
          rw [open'] at comes
          cases comes
          rw [step?, turn, open']
          rcases read with _ | ⟨bytes, nonempty⟩ | _ | failure <;> rfl
      | some closed =>
          rw [open'] at comes
          cases comes
          rw [step?, turn, open']
          dsimp only
          rcases tick.peer.lines.takeLine closed with ⟨(_ | line) | _, lines⟩ <;> rfl
  | idle =>
      rw [turn] at comes
      cases comes
  | finished =>
      rw [turn] at comes
      cases comes

/-- A client that keeps sending is read from without end. -/
theorem exists_reading (peer : Peer ε) (senders : Bool) {tick : Tick ε}
    (turn : tick.peer.position = .reading) (filling : tick.filled = none) (n : Nat) :
    ∃ (more : List (TickEvent ε)) (later : Tick ε), rounds more = n ∧
      (system peer senders).runFrom? tick more = some later ∧ later.peer.position = .reading := by
  induction n generalizing tick with
  | zero => exact ⟨[], tick, rfl, rfl, turn⟩
  | succ n ih =>
      have steps : tick.step? (.readBuf (some (.chunk [97] (by decide)))) = some { tick with
          peer := { tick.peer with
            lines := { tick.peer.lines with rd := tick.peer.lines.rd ++ [97] } } } := by
        rw [step?, turn, filling]
        rfl
      obtain ⟨more, later, made, runs, still⟩ := @ih { tick with
        peer := { tick.peer with
          lines := { tick.peer.lines with rd := tick.peer.lines.rd ++ [97] } } } turn filling
      refine ⟨.readBuf (some (.chunk [97] (by decide))) :: more, later, ?_, ?_, still⟩
      · rw [← made, Nat.add_comm]
        exact rounds_append [_] more
      · have first := congrArg (·.bind fun next => (system peer senders).runFrom? next more) steps
        exact first.trans runs

/--
A call returns when what comes to its socket ends.  Let one call of `Peer::poll`
begin with any peer, let other threads send and go at any time, and let bytes
come while it reads.  Until the call has returned it has a next round, which can
be made whatever the socket answers; and it makes no more of them than ten, one
for each byte that is to be written with the first ten messages of the channel,
one for each byte in its read buffer, two for each byte that comes, and three.
So no number of messages keeps it from returning.  The bytes that come do: while
the call fills its buffer, any number of rounds can follow in which it reads on.
-/
theorem poll_returns (peer : Peer ε) (senders : Bool) {history : List (TickEvent ε)}
    {tick : Tick ε} (run : (system peer senders).run? history = some tick) :
    rounds history ≤ Peer.LINES_PER_TICK +
        (toWrite peer ((peer.rx ++ sentLines history).take Peer.LINES_PER_TICK)).length +
        peer.lines.rd.length + 2 * (arrived history).length + 3 ∧
      (∀ write read, (tick.nextRound write read = none ↔
          tick.peer.position = .idle ∨ tick.peer.position = .finished) ∧
        (Possible tick.peer.lines.wr write → ∀ event, tick.nextRound write read = some event →
          ∃ next, tick.step? event = some next)) ∧
      (tick.peer.position = .reading → tick.filled = none → ∀ n,
        ∃ (more : List (TickEvent ε)) (later : Tick ε), rounds more = n ∧
          (system peer senders).run? (history ++ more) = some later ∧
          later.peer.position = .reading) := by
  refine ⟨?_, ?_, ?_⟩
  · obtain ⟨taken, queue, limit, paid⟩ := spent_of_run run
    have first : taken <+: (peer.rx ++ sentLines history).take Peer.LINES_PER_TICK := by
      rw [← queue]
      exact List.prefix_take_iff.mpr ⟨List.prefix_append _ _, limit⟩
    have shorter : (toWrite peer taken).length ≤
        (toWrite peer ((peer.rx ++ sentLines history).take Peer.LINES_PER_TICK)).length := by
      obtain ⟨more, glued⟩ := first
      rw [← glued]
      simp [toWrite]
    unfold Paid at paid
    cases turn : tick.peer.position with
    | receiving i =>
        rw [turn] at paid
        omega
    | flushing =>
        rw [turn] at paid
        omega
    | reading =>
        rw [turn] at paid
        dsimp only at paid
        have owed := Bool.toNat_le tick.filled.isSome
        omega
    | idle =>
        rw [turn] at paid
        dsimp only at paid
        omega
    | finished =>
        rw [turn] at paid
        dsimp only at paid
        omega
  · intro write read
    refine ⟨?_, fun possible event comes => exists_step possible comes⟩
    unfold nextRound
    cases tick.peer.position with
    | reading => cases tick.filled <;> simp
    | _ => simp
  · intro turn filling n
    obtain ⟨more, later, made, runs, still⟩ := exists_reading peer senders turn filling n
    refine ⟨more, later, made, ?_, still⟩
    rw [System.run?_append, run]
    exact runs

/-- A message comes while the call of a peer receives, and two lines while it reads. -/
def overtaken : List (TickEvent Unit) :=
  [.receive, .send [120], .receive, .receive, .flush (.wrote 3), .flush (.notReady),
    .readBuf (some (.chunk [97, 13, 10, 98] (by decide))),
    .readBuf (some (.chunk [13, 10] (by decide))), .readBuf (some .notReady), .takeLine,
    .readBuf (some .notReady), .takeLine, .readBuf (some .notReady), .takeLine]

theorem poll_returns_overtaken :
    ∃ tick, (system Call.sleeper true).run? overtaken = some tick ∧ tick.peer.position = .idle ∧
      rounds overtaken = 13 ∧ rounds overtaken ≤ 28 :=
  ⟨_, rfl, rfl, rfl, (@poll_returns Unit Call.sleeper true overtaken _ rfl).1⟩

end Tick

end RustDemo.ChatNew
