import RustDemo.Stream.Terminated

/-!
# The line codec of `chatnew`

`Lines` reads everything the socket has before it looks for the first `\r\n`
in its buffer.  The socket is the list of what polling it for reading will
meet; at the end of the list the remote side has closed, and every further read
gives zero bytes.
-/

namespace RustDemo.ChatNew

open RustDemo.Stream

/-- The contents of `Bytes` and `BytesMut`. -/
abbrev Bytes := List UInt8

/-- `futures::Async`. -/
inductive Async (α : Type) where
  | ready (value : α)
  | notReady
deriving DecidableEq

/-- What one `read_buf` of the socket meets before the end of its input. -/
inductive ReadEvent (ε : Type) where
  | chunk (bytes : Bytes) (nonempty : bytes ≠ [])
  | notReady
  | error (failure : ε)

/-- What one `poll_write` of the socket answers. -/
inductive WriteEvent (ε : Type) where
  | wrote (n : Nat)
  | notReady
  | error (failure : ε)

/-- A `TcpStream`: the reads to come, and the bytes it accepted for writing. -/
structure Socket (ε : Type) where
  incoming : List (ReadEvent ε)
  accepted : Bytes

structure Lines (ε : Type) where
  socket : Socket ε
  rd : Bytes
  wr : Bytes

/-- The terminator that `Lines` searches for. -/
def crlf : Terminator UInt8 where
  word := [13, 10]
  nonempty := nofun
  unbordered := by
    intro border begins ends
    rcases border with _ | ⟨first, _ | ⟨second, more⟩⟩
    · exact Or.inl rfl
    · have cr : first = 13 := (List.cons_prefix_cons.mp begins).1
      obtain ⟨before, same⟩ := ends
      have lf : first = 10 := by
        have last := congrArg List.getLast? same
        simpa using last
      exact absurd (cr.symm.trans lf) (by decide)
    · exact Or.inr (begins.eq_of_length_le (by simp))

namespace Lines

variable {ε : Type}

def new (socket : Socket ε) : Lines ε := ⟨socket, [], []⟩

def buffer (lines : Lines ε) (line : Bytes) : Lines ε :=
  { lines with wr := lines.wr ++ line }

/--
One round of the loop of `poll_flush`: the result it returns, if it does not go
round again.  A write of no bytes, or of more than there are, panics.
-/
def pollFlushRound (lines : Lines ε) (event : WriteEvent ε) :
    Option (Option (Except ε (Async Unit)) × Lines ε) :=
  if lines.wr.isEmpty then some (some (.ok (.ready ())), lines)
  else
    match event with
    | .wrote n =>
        if 0 < n ∧ n ≤ lines.wr.length then
          some (none, { lines with
            socket := { lines.socket with accepted := lines.socket.accepted ++ lines.wr.take n }
            wr := lines.wr.drop n })
        else none
    | .notReady => some (some (.ok .notReady), lines)
    | .error failure => some (some (.error failure), lines)

/-- All that a round of `poll_flush` can do. -/
inductive FlushRound (lines : Lines ε) :
    WriteEvent ε → Option (Except ε (Async Unit)) → Lines ε → Prop where
  | flushed {event : WriteEvent ε} (empty : lines.wr = []) :
      FlushRound lines event (some (.ok (.ready ()))) lines
  | wrote {n : Nat} (positive : 0 < n) (within : n ≤ lines.wr.length) :
      FlushRound lines (.wrote n) none { lines with
        socket := { lines.socket with accepted := lines.socket.accepted ++ lines.wr.take n }
        wr := lines.wr.drop n }
  | notReady (unsent : lines.wr ≠ []) : FlushRound lines .notReady (some (.ok .notReady)) lines
  | error {failure : ε} (unsent : lines.wr ≠ []) :
      FlushRound lines (.error failure) (some (.error failure)) lines

theorem flushRound {lines after : Lines ε} {event : WriteEvent ε}
    {result : Option (Except ε (Async Unit))}
    (round : lines.pollFlushRound event = some (result, after)) :
    FlushRound lines event result after := by
  unfold pollFlushRound at round
  split at round
  · rename_i empty
    cases round
    exact .flushed (List.isEmpty_iff.mp empty)
  · rename_i unsent
    rw [List.isEmpty_iff] at unsent
    cases event with
    | wrote n =>
        dsimp only at round
        split at round
        · rename_i some
          cases round
          exact .wrote some.1 some.2
        · cases round
    | notReady =>
        cases round
        exact .notReady unsent
    | error failure =>
        cases round
        exact .error unsent

theorem FlushRound.written {lines after : Lines ε} {event : WriteEvent ε}
    {result : Option (Except ε (Async Unit))} (round : FlushRound lines event result after) :
    after.socket.accepted ++ after.wr = lines.socket.accepted ++ lines.wr := by
  cases round with
  | wrote positive within => simp
  | flushed empty => rfl
  | notReady unsent => rfl
  | error unsent => rfl

/-! ## Reading -/

/-- The loop of `fill_read_buf` over the reads to come. -/
def readBuf (rd : Bytes) : List (ReadEvent ε) →
    Except ε (Async Unit) × List (ReadEvent ε) × Bytes
  | [] => (.ok (.ready ()), [], rd)
  | .chunk bytes _ :: incoming => readBuf (rd ++ bytes) incoming
  | .notReady :: incoming => (.ok .notReady, incoming, rd)
  | .error failure :: incoming => (.error failure, incoming, rd)

/-- Read data from the socket; ready only when the socket has closed. -/
def fillReadBuf (lines : Lines ε) : Except ε (Async Unit) × Lines ε :=
  let read := readBuf lines.rd lines.socket.incoming
  (read.1, { lines with socket := { lines.socket with incoming := read.2.1 }, rd := read.2.2 })

/-- The position of the first window of two bytes that is `\r\n`. -/
def position (rd : Bytes) : Option Nat :=
  (rd.zip rd.tail).findIdx? (· == (13, 10))

/-- `Stream::poll` of `Lines`. -/
def poll (lines : Lines ε) : Except ε (Async (Option Bytes)) × Lines ε :=
  match lines.fillReadBuf with
  | (.error failure, lines) => (.error failure, lines)
  | (.ok filled, lines) =>
      match position lines.rd with
      | some pos =>
          let line := lines.rd.take (pos + 2)
          (.ok (.ready (some (line.take pos))), { lines with rd := lines.rd.drop (pos + 2) })
      | none =>
          match filled with
          | .ready () => (.ok (.ready none), lines)
          | .notReady => (.ok .notReady, lines)

def received : List (ReadEvent ε) → Bytes
  | [] => []
  | .chunk bytes _ :: incoming => bytes ++ received incoming
  | .notReady :: incoming => received incoming
  | .error _ :: incoming => received incoming

def ErrorFree (incoming : List (ReadEvent ε)) : Prop :=
  ∀ failure, ReadEvent.error failure ∉ incoming

section Reading

theorem position_eq (rd : Bytes) : position rd = (crlf.cut rd).map fun found => found.1.length := by
  induction rd with
  | nil => rfl
  | cons first rest ih =>
      cases rest with
      | nil =>
          have missing : ¬ crlf.word <+: [first] := by
            intro begins
            exact absurd begins.length_le (by simp [crlf])
          rw [Terminator.cut, if_neg missing]
          rfl
      | cons second rest =>
          have window : crlf.word <+: first :: second :: rest ↔ (first, second) = (13, 10) := by
            simp [crlf, eq_comm]
          rw [Terminator.cut]
          unfold position at ih ⊢
          rw [List.tail_cons, List.zip_cons_cons, List.findIdx?_cons]
          cases here : (first, second) == ((13, 10) : UInt8 × UInt8) with
          | true =>
              rw [if_pos (window.mpr (eq_of_beq here))]
              rfl
          | false =>
              have elsewhere : ¬ crlf.word <+: first :: second :: rest := by
                intro begins
                rw [window.mp begins] at here
                cases here
              rw [if_neg elsewhere, Option.map_map]
              have later := congrArg (Option.map (· + 1)) ih
              rw [Option.map_map] at later
              exact later

theorem cut_of_position {rd : Bytes} {pos : Nat} (found : position rd = some pos) :
    crlf.cut rd = some (rd.take pos, rd.drop (pos + 2)) := by
  rw [position_eq] at found
  obtain ⟨⟨line, rest⟩, cut, rfl⟩ := Option.map_eq_some_iff.mp found
  obtain ⟨split, -⟩ := Terminator.cut_spec cut
  rw [cut, split]
  congr 2
  · rw [List.take_left]
  · rw [← List.drop_drop, List.drop_left]
    rfl

theorem free_of_position {rd : Bytes} (missing : position rd = none) : crlf.Free rd := by
  rw [position_eq, Option.map_eq_none_iff] at missing
  exact Terminator.cut_eq_none_iff.mp missing

theorem readBuf_received (rd : Bytes) (incoming : List (ReadEvent ε)) :
    (readBuf rd incoming).2.2 ++ received (readBuf rd incoming).2.1 = rd ++ received incoming := by
  induction incoming generalizing rd with
  | nil => rfl
  | cons event incoming ih =>
      cases event with
      | chunk bytes nonempty =>
          rw [readBuf, ih, received, List.append_assoc]
      | notReady => rfl
      | error failure => rfl

theorem readBuf_suffix (rd : Bytes) (incoming : List (ReadEvent ε)) :
    (readBuf rd incoming).2.1 <:+ incoming := by
  induction incoming generalizing rd with
  | nil => exact List.suffix_rfl
  | cons event incoming ih =>
      cases event with
      | chunk bytes nonempty => exact (ih _).trans (List.suffix_cons _ incoming)
      | notReady => exact List.suffix_cons _ incoming
      | error failure => exact List.suffix_cons _ incoming

theorem readBuf_ready {rd : Bytes} {incoming : List (ReadEvent ε)}
    (closed : (readBuf rd incoming).1 = .ok (.ready ())) : (readBuf rd incoming).2.1 = [] := by
  induction incoming generalizing rd with
  | nil => rfl
  | cons event incoming ih =>
      cases event with
      | chunk bytes nonempty => exact ih closed
      | notReady => cases closed
      | error failure => cases closed

theorem readBuf_stopped {rd : Bytes} {incoming : List (ReadEvent ε)}
    (stopped : (readBuf rd incoming).1 ≠ .ok (.ready ())) :
    (readBuf rd incoming).2.1.length < incoming.length := by
  induction incoming generalizing rd with
  | nil => exact absurd rfl stopped
  | cons event incoming ih =>
      cases event with
      | chunk bytes nonempty => exact Nat.lt_succ_of_lt (ih stopped)
      | notReady => exact Nat.lt_succ_self _
      | error failure => exact Nat.lt_succ_self _

theorem readBuf_error {rd : Bytes} {incoming : List (ReadEvent ε)} {failure : ε}
    (failed : (readBuf rd incoming).1 = .error failure) : .error failure ∈ incoming := by
  induction incoming generalizing rd with
  | nil => cases failed
  | cons event incoming ih =>
      cases event with
      | chunk bytes nonempty => exact List.mem_cons_of_mem _ (ih failed)
      | notReady => cases failed
      | error other =>
          cases failed
          exact List.mem_cons_self

theorem fillReadBuf_eq {lines after : Lines ε} {result : Except ε (Async Unit)}
    (filled : lines.fillReadBuf = (result, after)) :
    readBuf lines.rd lines.socket.incoming = (result, after.socket.incoming, after.rd) ∧
      after.wr = lines.wr ∧ after.socket.accepted = lines.socket.accepted := by
  obtain ⟨rfl, rfl⟩ := Prod.mk.inj filled
  exact ⟨rfl, rfl, rfl⟩

/-! ### What one poll does -/

/--
One poll.  It moves bytes from the socket to the buffer and then either takes
the first line off the buffer, or finds no terminator in it: then it reports
the end of the stream, or a read that was not ready.
-/
inductive Polled (lines : Lines ε) : Except ε (Async (Option Bytes)) → Lines ε → Prop where
  | line {after : Lines ε} {line rd : Bytes}
      (held : rd ++ received after.socket.incoming = lines.rd ++ received lines.socket.incoming)
      (found : crlf.cut rd = some (line, after.rd))
      (left : after.socket.incoming <:+ lines.socket.incoming) :
      Polled lines (.ok (.ready (some line))) after
  | closed {after : Lines ε}
      (held : after.rd = lines.rd ++ received lines.socket.incoming)
      (free : crlf.Free after.rd) :
      Polled lines (.ok (.ready none)) after
  | notReady {after : Lines ε}
      (held : after.rd ++ received after.socket.incoming =
        lines.rd ++ received lines.socket.incoming)
      (left : after.socket.incoming <:+ lines.socket.incoming)
      (shorter : after.socket.incoming.length < lines.socket.incoming.length) :
      Polled lines (.ok .notReady) after
  | error {after : Lines ε} {failure : ε}
      (met : .error failure ∈ lines.socket.incoming) :
      Polled lines (.error failure) after

theorem polled {lines after : Lines ε} {result : Except ε (Async (Option Bytes))}
    (polls : lines.poll = (result, after)) : Polled lines result after := by
  suffices spec : Polled lines lines.poll.1 lines.poll.2 by
    rw [polls] at spec
    exact spec
  have held := readBuf_received lines.rd lines.socket.incoming
  have left := readBuf_suffix lines.rd lines.socket.incoming
  cases filled : lines.fillReadBuf with
  | mk result after =>
      obtain ⟨read, -, -⟩ := fillReadBuf_eq filled
      rw [read] at held left
      cases result with
      | error failure =>
          rw [poll, filled]
          exact .error (readBuf_error (congrArg Prod.fst read))
      | ok closed =>
          rw [poll, filled]
          dsimp only
          cases found : position after.rd with
          | some pos =>
              have line : after.rd.take pos = (after.rd.take (pos + 2)).take pos := by
                rw [List.take_take, Nat.min_eq_left (Nat.le_add_right pos 2)]
              have cut := cut_of_position found
              rw [line] at cut
              exact .line held cut left
          | none =>
              have free := free_of_position found
              cases closed with
              | ready closed =>
                  have ended := readBuf_ready (congrArg Prod.fst read)
                  rw [read] at ended
                  rw [ended, received, List.append_nil] at held
                  exact .closed held free
              | notReady =>
                  have shorter : (readBuf lines.rd lines.socket.incoming).2.1.length <
                      lines.socket.incoming.length := by
                    apply readBuf_stopped
                    rw [read]
                    nofun
                  rw [read] at shorter
                  exact .notReady held left shorter

/-- Reading does not touch the writing side. -/
theorem poll_writing (lines : Lines ε) :
    lines.poll.2.wr = lines.wr ∧ lines.poll.2.socket.accepted = lines.socket.accepted := by
  cases filled : lines.fillReadBuf with
  | mk result after =>
      obtain ⟨-, wr, accepted⟩ := fillReadBuf_eq filled
      rw [poll, filled]
      cases result with
      | error failure => exact ⟨wr, accepted⟩
      | ok closed =>
          dsimp only
          cases position after.rd with
          | some pos => exact ⟨wr, accepted⟩
          | none => cases closed <;> exact ⟨wr, accepted⟩

end Reading

/-- What bounds the polls to come: bytes to cut lines from, and events to wait for. -/
def work (lines : Lines ε) : Nat :=
  (lines.rd ++ received lines.socket.incoming).length + lines.socket.incoming.length

theorem Polled.work_lt_of_line {lines after : Lines ε} {line : Bytes}
    (polled : Polled lines (.ok (.ready (some line))) after) : after.work < lines.work := by
  cases polled with
  | line held found left =>
      have shrinks := Terminator.cut_shrinks found
      have total := congrArg List.length held
      have fewer := left.length_le
      simp only [List.length_append] at total
      simp only [work, List.length_append]
      omega

theorem Polled.work_lt_of_notReady {lines after : Lines ε}
    (polled : Polled lines (.ok .notReady) after) : after.work < lines.work := by
  cases polled with
  | notReady held left shorter =>
      rw [work, work, held]
      omega

/--
Poll `Lines` until it ends, again each time after it was not ready; the lines
that it yields, and the error that ended it, if it was one.
-/
def collect (lines : Lines ε) : List Bytes × Option ε :=
  match polls : lines.poll with
  | (.ok (.ready (some line)), after) =>
      have : after.work < lines.work :=
        Polled.work_lt_of_line (Lines.polled polls)
      (line :: (collect after).1, (collect after).2)
  | (.ok (.ready none), _) => ([], none)
  | (.ok .notReady, after) =>
      have : after.work < lines.work :=
        Polled.work_lt_of_notReady (Lines.polled polls)
      collect after
  | (.error failure, _) => ([], some failure)
termination_by lines.work

theorem collect_of_line {lines after : Lines ε} {line : Bytes}
    (polls : lines.poll = (.ok (.ready (some line)), after)) :
    lines.collect = (line :: after.collect.1, after.collect.2) := by
  rw [collect]
  split <;> rename_i other <;> cases polls.symm.trans other
  rfl

theorem collect_of_closed {lines after : Lines ε}
    (polls : lines.poll = (.ok (.ready none), after)) : lines.collect = ([], none) := by
  rw [collect]
  split <;> rename_i other <;> cases polls.symm.trans other
  rfl

theorem collect_of_notReady {lines after : Lines ε}
    (polls : lines.poll = (.ok .notReady, after)) : lines.collect = after.collect := by
  rw [collect]
  split <;> rename_i other <;> cases polls.symm.trans other
  rfl

/-- The lines of a stream that is read to its end, in whatever chunks it comes. -/
theorem collect_eq_pieces (lines : Lines ε) (clean : ErrorFree lines.socket.incoming) :
    lines.collect = ((crlf.pieces (lines.rd ++ received lines.socket.incoming)).1, none) := by
  induction lines using collect.induct with
  | case1 lines line after polls shorter ih =>
      cases polled polls with
      | line held found left =>
          have later := ih fun failure met => clean failure (left.subset met)
          have extended := Terminator.cut_append (received after.socket.incoming) found
          rw [held] at extended
          rw [collect_of_line polls, later, Terminator.pieces_of_cut extended]
  | case2 lines after polls =>
      cases polled polls with
      | closed held free =>
          rw [held] at free
          rw [collect_of_closed polls, Terminator.pieces_of_free free]
  | case3 lines after polls shorter ih =>
      cases polled polls with
      | notReady held left fewer =>
          have later := ih fun failure met => clean failure (left.subset met)
          rw [collect_of_notReady polls, later, held]
  | case4 lines failure after polls =>
      cases polled polls with
      | error met => exact absurd met (clean failure)

end Lines

/-! ## Line framing -/

/-- `b": "`. -/
def separator : Bytes := [58, 32]

/-- The line that a peer sends to the others: its name in front of the message. -/
def broadcastLine (name message : Bytes) : Bytes :=
  name ++ separator ++ message ++ crlf.word

theorem free_named {name message : Bytes} (nameFree : crlf.Free name)
    (messageFree : crlf.Free message) : crlf.Free (name ++ separator ++ message) :=
  nameFree.around messageFree nofun (by simp [separator, crlf])

section Framing

variable {ε : Type} {incoming : List (ReadEvent ε)} {accepted : Bytes}

theorem collect_new (clean : Lines.ErrorFree incoming) :
    (Lines.new ⟨incoming, accepted⟩).collect =
      ((crlf.pieces (Lines.received incoming)).1, none) :=
  Lines.collect_eq_pieces (Lines.new ⟨incoming, accepted⟩) clean

theorem collect_of_lines (clean : Lines.ErrorFree incoming) {lines : List Bytes}
    (free : ∀ line ∈ lines, crlf.Free line)
    (written : Lines.received incoming = (lines.map (· ++ crlf.word)).flatten) :
    (Lines.new ⟨incoming, accepted⟩).collect = (lines, none) := by
  have split : crlf.Split (Lines.received incoming) lines [] :=
    ⟨written.trans (List.append_nil _).symm, free, Terminator.free_nil⟩
  rw [collect_new clean, split.pieces_eq]

end Framing

/--
Line framing.  Let the reads of a socket bring chunks and not-ready answers in
any order until its end.  Then the lines yielded are the pieces of the stream
in front of the terminators, and the tail behind the last of them is dropped,
however the stream was cut into reads.  Conversely, lines that are written
behind one another come back as they were, and so do broadcast lines.
-/
theorem line_framing {ε : Type} (incoming : List (ReadEvent ε)) (accepted : Bytes)
    (clean : Lines.ErrorFree incoming) :
    let yielded := (Lines.new ⟨incoming, accepted⟩).collect
    yielded.2 = none ∧
      (∃ tail, crlf.Split (Lines.received incoming) yielded.1 tail) ∧
      (∀ other, Lines.ErrorFree other → Lines.received other = Lines.received incoming →
        (Lines.new ⟨other, accepted⟩).collect = yielded) ∧
      (∀ lines, (∀ line ∈ lines, crlf.Free line) →
        Lines.received incoming = (lines.map (· ++ crlf.word)).flatten → yielded.1 = lines) ∧
      (∀ said : List (Bytes × Bytes), (∀ pair ∈ said, crlf.Free pair.1 ∧ crlf.Free pair.2) →
        Lines.received incoming = (said.map fun pair => broadcastLine pair.1 pair.2).flatten →
        yielded.1 = said.map fun pair => pair.1 ++ separator ++ pair.2) := by
  intro yielded
  have pieces : yielded = ((crlf.pieces (Lines.received incoming)).1, none) := collect_new clean
  refine ⟨?_, ?_, ?_, ?_, ?_⟩
  · rw [pieces]
  · rw [pieces]
    exact ⟨_, Terminator.split_pieces _⟩
  · intro other otherClean same
    rw [collect_new otherClean, same, pieces]
  · intro lines free written
    exact congrArg Prod.fst (collect_of_lines clean free written)
  · intro said free written
    have lineFree : ∀ line ∈ said.map fun pair => pair.1 ++ separator ++ pair.2,
        crlf.Free line := by
      intro line held
      obtain ⟨pair, there, rfl⟩ := List.mem_map.mp held
      exact free_named (free pair there).1 (free pair there).2
    apply congrArg Prod.fst (collect_of_lines clean lineFree _)
    rw [List.map_map]
    exact written

/--
The terminator may be cut in two by the reads, and a line may end with a lone
`\r`: here `a\r` and the empty line.
-/
theorem line_framing_cut_terminator :
    (Lines.new (⟨[.chunk [97, 13, 13] nofun, .notReady, .chunk [10, 13] nofun, .notReady,
      .chunk [10] nofun], []⟩ : Socket Unit)).collect.1 = [[97, 13], []] :=
  (line_framing [.chunk [97, 13, 13] nofun, .notReady, .chunk [10, 13] nofun, .notReady,
    .chunk [10] nofun] [] (by simp [Lines.ErrorFree])).2.2.2.1 [[97, 13], []] (by decide) rfl

end RustDemo.ChatNew
