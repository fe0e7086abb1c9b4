import RustDemo.ChatNew.Yielded

/-!
# Read errors

A poll that meets an error of the socket returns it at once, without a look at
the lines that are in the buffer.  Each `NotReady` lets one poll take one line
off the buffer, so nothing is lost just when the lines came no faster than that.
-/

namespace RustDemo.ChatNew

open RustDemo.Stream

variable {ε : Type}

namespace Lines

theorem collect_eq_of_poll_eq {lines other : Lines ε} (same : lines.poll = other.poll) :
    lines.collect = other.collect := by
  cases polls : other.poll with
  | mk result after =>
      rw [polls] at same
      rcases result with failure | (_ | line) | _
      · rw [collect_of_error same, collect_of_error polls]
      · rw [collect_of_closed same, collect_of_closed polls]
      · rw [collect_of_line same, collect_of_line polls]
      · rw [collect_of_notReady same, collect_of_notReady polls]

variable {incoming : List (ReadEvent ε)} {accepted rd wr : Bytes}

theorem collect_chunk {bytes : Bytes} (nonempty : bytes ≠ []) :
    (Lines.mk ⟨.chunk bytes nonempty :: incoming, accepted⟩ rd wr).collect =
      (Lines.mk ⟨incoming, accepted⟩ (rd ++ bytes) wr).collect :=
  collect_eq_of_poll_eq rfl

theorem collect_error (failure : ε) :
    (Lines.mk ⟨.error failure :: incoming, accepted⟩ rd wr).collect = ([], some failure) :=
  collect_of_error rfl

theorem collect_line {line behind : Bytes} (found : crlf.cut rd = some (line, behind)) :
    (Lines.mk ⟨.notReady :: incoming, accepted⟩ rd wr).collect =
      (line :: (Lines.mk ⟨incoming, accepted⟩ behind wr).collect.1,
        (Lines.mk ⟨incoming, accepted⟩ behind wr).collect.2) := by
  cases here : position rd with
  | none =>
      rw [Terminator.cut_eq_none_iff.mpr (free_of_position here)] at found
      cases found
  | some pos =>
      cases (cut_of_position here).symm.trans found
      have taken : (rd.take (pos + 2)).take pos = rd.take pos := by
        rw [List.take_take, Nat.min_eq_left (Nat.le_add_right pos 2)]
      apply collect_of_line
      simp only [poll, fillReadBuf, readBuf, here, taken]

theorem collect_idle (free : crlf.Free rd) :
    (Lines.mk ⟨.notReady :: incoming, accepted⟩ rd wr).collect =
      (Lines.mk ⟨incoming, accepted⟩ rd wr).collect := by
  have missing : position rd = none := by
    rw [position_eq, Terminator.cut_eq_none_iff.mpr free]
    rfl
  apply collect_of_notReady
  simp only [poll, fillReadBuf, readBuf, missing]

end Lines

/-- How many lines the buffer and the events complete. -/
def completed (rd : Bytes) (events : List (ReadEvent ε)) : Nat :=
  (crlf.pieces (rd ++ Lines.received events)).1.length

def ReadEvent.isNotReady : ReadEvent ε → Bool
  | .notReady => true
  | _ => false

/-- How many polls end in the events. -/
def notReadys (events : List (ReadEvent ε)) : Nat := events.countP ReadEvent.isNotReady

/-- In every last part of the events no more lines are completed than polls end there. -/
def Paced (events : List (ReadEvent ε)) : Prop :=
  ∀ earlier later, events = earlier ++ later →
    completed [] events ≤ completed [] earlier + notReadys later

/-- The same for a buffer that holds something, which must be taken off as well. -/
structure PacedFrom (rd : Bytes) (events : List (ReadEvent ε)) : Prop where
  whole : completed rd events ≤ notReadys events
  parts : ∀ earlier later, events = earlier ++ later →
    completed rd events ≤ completed rd earlier + notReadys later

theorem completed_chunk (rd : Bytes) {bytes : Bytes} (nonempty : bytes ≠ [])
    (events : List (ReadEvent ε)) :
    completed rd (.chunk bytes nonempty :: events) = completed (rd ++ bytes) events := by
  rw [completed, completed, Lines.received, List.append_assoc]

theorem completed_notReady (rd : Bytes) (events : List (ReadEvent ε)) :
    completed rd (.notReady :: events) = completed rd events := rfl

theorem completed_nil_of_free {rd : Bytes} (free : crlf.Free rd) :
    completed rd ([] : List (ReadEvent ε)) = 0 := by
  rw [completed, Lines.received, List.append_nil, Terminator.pieces_of_free free]
  rfl

theorem completed_of_cut {rd line behind : Bytes} (found : crlf.cut rd = some (line, behind))
    (events : List (ReadEvent ε)) : completed rd events = completed behind events + 1 := by
  rw [completed, Terminator.pieces_of_cut (Terminator.cut_append _ found)]
  rfl

theorem pacedFrom_nil_iff (events : List (ReadEvent ε)) : PacedFrom [] events ↔ Paced events := by
  refine ⟨PacedFrom.parts, fun paced => ⟨?_, paced⟩⟩
  have all := paced [] events rfl
  rw [completed_nil_of_free Terminator.free_nil, Nat.zero_add] at all
  exact all

theorem pacedFrom_end_iff {rd : Bytes} :
    PacedFrom rd ([] : List (ReadEvent ε)) ↔ completed rd ([] : List (ReadEvent ε)) = 0 := by
  constructor
  · intro paced
    exact Nat.le_zero.mp paced.whole
  · intro none
    refine ⟨Nat.le_of_eq none, fun earlier later split => ?_⟩
    rw [none]
    exact Nat.zero_le _

theorem pacedFrom_cons {rd : Bytes} {event : ReadEvent ε} {events : List (ReadEvent ε)}
    (whole : completed rd (event :: events) ≤ notReadys (event :: events))
    (parts : ∀ earlier later, events = earlier ++ later →
      completed rd (event :: events) ≤ completed rd (event :: earlier) + notReadys later) :
    PacedFrom rd (event :: events) := by
  refine ⟨whole, fun earlier later split => ?_⟩
  cases earlier with
  | nil =>
      cases split
      exact Nat.le_trans whole (Nat.le_add_left _ _)
  | cons first earlier =>
      cases split
      exact parts earlier later rfl

theorem pacedFrom_chunk_iff {rd bytes : Bytes} (nonempty : bytes ≠ [])
    {events : List (ReadEvent ε)} :
    PacedFrom rd (.chunk bytes nonempty :: events) ↔ PacedFrom (rd ++ bytes) events := by
  constructor
  · rintro ⟨whole, parts⟩
    refine ⟨by rw [← completed_chunk rd nonempty]; exact whole, ?_⟩
    rintro earlier later rfl
    have part := parts (.chunk bytes nonempty :: earlier) later rfl
    rw [completed_chunk, completed_chunk] at part
    exact part
  · rintro ⟨whole, parts⟩
    refine pacedFrom_cons (by rw [completed_chunk]; exact whole) fun earlier later split => ?_
    rw [completed_chunk, completed_chunk]
    exact parts earlier later split

theorem notReadys_notReady (events : List (ReadEvent ε)) :
    notReadys (.notReady :: events) = notReadys events + 1 :=
  List.countP_cons_of_pos rfl

theorem pacedFrom_idle_iff {rd : Bytes} (free : crlf.Free rd) {events : List (ReadEvent ε)} :
    PacedFrom rd (.notReady :: events) ↔ PacedFrom rd events := by
  constructor
  · rintro ⟨_, parts⟩
    constructor
    · have later := parts [.notReady] events rfl
      rw [completed_notReady, completed_notReady, completed_nil_of_free free, Nat.zero_add] at later
      exact later
    · rintro earlier later rfl
      exact parts (.notReady :: earlier) later rfl
  · rintro ⟨whole, parts⟩
    refine pacedFrom_cons ?_ parts
    rw [notReadys_notReady]
    exact Nat.le_succ_of_le whole

theorem pacedFrom_line_iff {rd line behind : Bytes} (found : crlf.cut rd = some (line, behind))
    {events : List (ReadEvent ε)} :
    PacedFrom rd (.notReady :: events) ↔ PacedFrom behind events := by
  have counts := completed_of_cut (ε := ε) found
  constructor
  · rintro ⟨whole, parts⟩
    rw [notReadys_notReady, completed_notReady, counts] at whole
    refine ⟨Nat.le_of_succ_le_succ whole, ?_⟩
    rintro earlier later rfl
    have part := parts (.notReady :: earlier) later rfl
    rw [completed_notReady, completed_notReady, counts, counts, Nat.add_right_comm] at part
    exact Nat.le_of_succ_le_succ part
  · rintro ⟨whole, parts⟩
    refine pacedFrom_cons ?_ fun earlier later split => ?_
    · rw [notReadys_notReady, completed_notReady, counts]
      exact Nat.succ_le_succ whole
    · rw [completed_notReady, completed_notReady, counts, counts, Nat.add_right_comm]
      exact Nat.succ_le_succ (parts earlier later split)

/-! ## Lines before an error -/

/-- What is yielded of the lines before an error: the first of them, all only if they are paced. -/
structure Yields (all : List Bytes) (failure : ε) (paced : Prop) (yielded : List Bytes × Option ε) :
    Prop where
  fails : yielded.2 = some failure
  begins : yielded.1 <+: all
  all_iff : yielded.1 = all ↔ paced

theorem yields_collect {events : List (ReadEvent ε)} (clean : Lines.ErrorFree events) (failure : ε)
    (rest : List (ReadEvent ε)) (rd accepted wr : Bytes) :
    Yields (crlf.pieces (rd ++ Lines.received events)).1 failure (PacedFrom rd events)
      (Lines.mk ⟨events ++ .error failure :: rest, accepted⟩ rd wr).collect := by
  induction events generalizing rd with
  | nil =>
      rw [List.nil_append, Lines.collect_error]
      refine ⟨rfl, List.nil_prefix, ?_⟩
      rw [pacedFrom_end_iff, completed, List.length_eq_zero_iff, eq_comm]
  | cons event events ih =>
      have later := ih fun other met => clean other (List.mem_cons_of_mem event met)
      cases event with
      | chunk bytes nonempty =>
          rw [List.cons_append, Lines.collect_chunk, Lines.received, ← List.append_assoc,
            pacedFrom_chunk_iff]
          exact later (rd ++ bytes)
      | notReady =>
          rw [List.cons_append]
          cases found : crlf.cut rd with
          | none =>
              have free := Terminator.cut_eq_none_iff.mp found
              rw [Lines.collect_idle free, pacedFrom_idle_iff free]
              exact later rd
          | some pair =>
              obtain ⟨line, behind⟩ := pair
              obtain ⟨fails, begins, all⟩ := later behind
              rw [Lines.collect_line found, pacedFrom_line_iff found, Lines.received,
                Terminator.pieces_of_cut (Terminator.cut_append _ found)]
              refine ⟨fails, (List.prefix_cons_inj line).mpr begins, ?_⟩
              rw [List.cons.injEq, ← all]
              exact ⟨And.right, fun same => ⟨rfl, same⟩⟩
      | error other => exact absurd List.mem_cons_self (clean other)

namespace Chat

variable {κ σ : Type} [DecidableEq κ] [DecidableEq σ]

/-- A peer that has yet to report an error has said all that its socket yields before it. -/
theorem said_before_error {addr : κ → σ} {history : List (Action κ ε)} {chat : Chat κ σ ε}
    (run : (system addr).run? history = some chat) {k : κ} {incoming : List (ReadEvent ε)}
    (accepted : .accept k incoming ∈ history) {peer : Peer ε} (live : chat.tasks k = .peer peer)
    (reading : peer.position = .reading) {failure : ε}
    (fails : peer.lines.poll.1 = .error failure) :
    peer.name :: saidBy chat.log k = (Lines.new ⟨incoming, []⟩).collect.1 := by
  have polls : peer.lines.poll = (.error failure, peer.lines.poll.2) := Prod.ext fails rfl
  have unfinished : peer.position ≠ .finished := by
    rw [reading]
    exact nofun
  have whole := (tells_of_run run accepted).peer peer live unfinished
  rw [Lines.collect_of_error polls, List.append_nil] at whole
  exact whole.symm

/--
The lines that are complete before an error of the socket.  `Lines` yields all
of them before it reports the error, and a peer has taken its name and its
messages from all of them, just when they are paced; before the end of the
socket it always yields all.
-/
theorem lines_before_error_iff {events : List (ReadEvent ε)} (clean : Lines.ErrorFree events)
    (failure : ε) (rest : List (ReadEvent ε)) (addr : κ → σ) :
    let incoming := events ++ .error failure :: rest
    let lines := (crlf.pieces (Lines.received events)).1
    (Lines.new ⟨events, []⟩).collect = (lines, none) ∧
      Yields lines failure (Paced events) (Lines.new ⟨incoming, []⟩).collect ∧
      ∀ (history : List (Action κ ε)) (chat : Chat κ σ ε) (k : κ) (peer : Peer ε),
        (system addr).run? history = some chat → .accept k incoming ∈ history →
        chat.tasks k = .peer peer → peer.position = .reading →
        peer.lines.poll.1 = .error failure →
        (peer.name :: saidBy chat.log k = lines ↔ Paced events) := by
  intro incoming lines
  have yields : Yields lines failure (Paced events) (Lines.new ⟨incoming, []⟩).collect := by
    rw [← pacedFrom_nil_iff]
    exact yields_collect clean failure rest [] [] []
  refine ⟨collect_new clean, yields, ?_⟩
  intro history chat k peer run accepted live reading fails
  rw [said_before_error run accepted live reading fails]
  exact yields.all_iff

theorem pieces_one : (crlf.pieces [97, 13, 10]).1 = [[97]] := by
  have found : crlf.cut [97, 13, 10] = some ([97], []) := by decide
  rw [Terminator.pieces_of_cut found, Terminator.pieces_of_free Terminator.free_nil]

/-- A line that came before the last `NotReady` is yielded. -/
theorem lines_before_error_iff_polled :
    (Lines.new ⟨[.chunk [97, 13, 10] nofun, .notReady, .error ()], []⟩).collect.1 = [[97]] := by
  have clean : Lines.ErrorFree [.chunk [97, 13, 10] nofun, ReadEvent.notReady (ε := Unit)] := by
    simp [Lines.ErrorFree]
  have paced : Paced [.chunk [97, 13, 10] nofun, ReadEvent.notReady (ε := Unit)] := by
    have found : crlf.cut [97, 13, 10] = some ([97], []) := by decide
    rw [← pacedFrom_nil_iff, pacedFrom_chunk_iff, List.nil_append, pacedFrom_line_iff found]
    exact pacedFrom_end_iff.mpr (completed_nil_of_free Terminator.free_nil)
  obtain ⟨_, yields, _⟩ := lines_before_error_iff clean () [] fun connection : Nat => connection
  exact (yields.all_iff.mpr paced).trans pieces_one

/-- A line that came in one drain with the error is lost. -/
theorem line_lost_before_error :
    ¬ ∀ events : List (ReadEvent Unit), Lines.ErrorFree events →
      (Lines.new ⟨events ++ [.error ()], []⟩).collect.1 =
        (crlf.pieces (Lines.received events)).1 := by
  intro keeps
  have clean : Lines.ErrorFree [ReadEvent.chunk (ε := Unit) [97, 13, 10] nofun] := by
    simp [Lines.ErrorFree]
  have kept := keeps _ clean
  rw [List.cons_append, List.nil_append, Lines.new, Lines.collect_chunk, Lines.collect_error] at kept
  exact List.cons_ne_nil _ _ (kept.trans pieces_one).symm

end Chat

end RustDemo.ChatNew
