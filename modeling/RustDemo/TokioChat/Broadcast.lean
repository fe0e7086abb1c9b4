import RustDemo.TcpEcho.LineCodec
import RustDemo.TokioChat.Safety

/-!
# Broadcast in `tokio_chat`

What a connection has written, is writing and has in its channel is, in this
order, what it was told since it was accepted: the lines of the others behind
their addresses, and a notice for each of its own lines that is not UTF-8.  The
lines themselves are the pieces of the stream that the socket brings.
-/

namespace RustDemo.TokioChat

open RustDemo.ChatNew RustDemo.Collections RustDemo.Stream RustDemo.Text RustDemo.Transition
open RustDemo.TcpEcho (newline newline_free_iff)

variable {κ σ ε : Type}

/-- The pieces of a stream, each with its `\n`; the last one may have none. -/
def linesOf (stream : Bytes) : List Bytes :=
  (newline.pieces stream).1.map (· ++ newline.word) ++
    if (newline.pieces stream).2 = [] then [] else [(newline.pieces stream).2]

theorem linesOf_line {line : Bytes} (free : 10 ∉ line) (rest : Bytes) :
    linesOf (line ++ [10] ++ rest) = (line ++ [10]) :: linesOf rest := by
  have cut : newline.cut (line ++ [10] ++ rest) = some (line, rest) := by
    rw [List.append_assoc]
    exact Terminator.cut_line rest (newline_free_iff.mpr free)
  rw [linesOf, Terminator.pieces_of_cut cut]
  rfl

theorem linesOf_tail {tail : Bytes} (free : 10 ∉ tail) :
    linesOf tail = if tail = [] then [] else [tail] := by
  rw [linesOf, Terminator.pieces_of_free (newline_free_iff.mpr free)]
  rfl

/-- All that `read_until` can do to a line that has no `\n` so far. -/
inductive ReadsUntil (line rd : Bytes) (incoming : List (ReadEvent ε)) :
    Except ε (Async Bytes) × List (ReadEvent ε) × Bytes × Bytes → Prop where
  | line {vec rest : Bytes} {later : List (ReadEvent ε)} (free : 10 ∉ vec)
      (held : line ++ rd ++ Lines.received incoming = vec ++ [10] ++ (rest ++ Lines.received later)) :
      ReadsUntil line rd incoming (.ok (.ready (vec ++ [10])), later, rest, [])
  | ended {vec : Bytes} (free : 10 ∉ vec) (held : line ++ rd ++ Lines.received incoming = vec) :
      ReadsUntil line rd incoming (.ok (.ready vec), [], [], [])
  | notReady {filled : Bytes} {later : List (ReadEvent ε)} (free : 10 ∉ filled)
      (held : line ++ rd ++ Lines.received incoming = filled ++ Lines.received later) :
      ReadsUntil line rd incoming (.ok .notReady, later, [], filled)
  | error {failure : ε} {later : List (ReadEvent ε)} :
      ReadsUntil line rd incoming (.error failure, later, [], [])

theorem cut_at_newline {rd : Bytes} {i : Nat} (found : rd.findIdx? (· == 10) = some i) :
    ∃ before, 10 ∉ before ∧ rd.take (i + 1) = before ++ [10] := by
  obtain ⟨inside, here, earlier⟩ := List.findIdx?_eq_some_iff_getElem.mp found
  refine ⟨rd.take i, fun held => ?_, ?_⟩
  · obtain ⟨j, within, same⟩ := List.getElem_of_mem held
    rw [List.length_take] at within
    rw [List.getElem_take] at same
    exact earlier j (by omega) (beq_iff_eq.mpr same)
  · rw [List.take_add_one, List.getElem?_eq_getElem inside, beq_iff_eq.mp here]
    rfl

theorem readsUntil_of_found {line rd : Bytes} {incoming : List (ReadEvent ε)} (free : 10 ∉ line)
    {i : Nat} (found : rd.findIdx? (· == 10) = some i) :
    ReadsUntil line rd incoming
      (.ok (.ready (line ++ rd.take (i + 1))), incoming, rd.drop (i + 1), []) := by
  obtain ⟨before, beforeFree, taken⟩ := cut_at_newline found
  have held : line ++ rd ++ Lines.received incoming =
      line ++ before ++ [10] ++ (rd.drop (i + 1) ++ Lines.received incoming) := by
    rw [List.append_assoc line before, ← taken, ← List.append_assoc _ (rd.drop (i + 1)),
      List.append_assoc line (rd.take (i + 1)), List.take_append_drop]
  rw [taken, ← List.append_assoc]
  refine .line (fun inside => ?_) held
  exact (List.mem_append.mp inside).elim free beforeFree

theorem unended {line rd : Bytes} (free : 10 ∉ line) (missing : rd.findIdx? (· == 10) = none) :
    10 ∉ line ++ rd := by
  intro held
  rcases List.mem_append.mp held with before | here
  · exact free before
  · cases List.findIdx?_eq_none_iff.mp missing 10 here

theorem readsUntil {line : Bytes} (free : 10 ∉ line) (rd : Bytes) (incoming : List (ReadEvent ε)) :
    ReadsUntil line rd incoming (readUntil line rd incoming) := by
  induction incoming generalizing line rd with
  | nil =>
      unfold readUntil
      cases found : rd.findIdx? (· == 10) with
      | some i => exact readsUntil_of_found free found
      | none => exact .ended (unended free found) (List.append_nil _)
  | cons event incoming ih =>
      unfold readUntil
      cases found : rd.findIdx? (· == 10) with
      | some i => exact readsUntil_of_found free found
      | none =>
          cases event with
          | chunk bytes nonempty =>
              have later := ih (unended free found) bytes
              dsimp only
              generalize readUntil (line ++ rd) bytes incoming = result at later ⊢
              cases later with
              | line vecFree held =>
                  refine .line vecFree ?_
                  rw [← held, Lines.received, List.append_assoc (line ++ rd)]
              | ended vecFree held =>
                  refine .ended vecFree ?_
                  rw [← held, Lines.received, List.append_assoc (line ++ rd)]
              | notReady filledFree held =>
                  refine .notReady filledFree ?_
                  rw [← held, Lines.received, List.append_assoc (line ++ rd)]
              | error => exact .error
          | notReady => exact .notReady (unended free found) rfl
          | error failure => exact .error

/-! ## What is read and what is told -/

namespace Connection

def unread (connection : Connection ε) : Bytes :=
  connection.line ++ connection.rd ++ Lines.received connection.incoming

/-- Every byte for the peer, in the order in which it leaves. -/
def held (connection : Connection ε) : Bytes :=
  connection.accepted ++ connection.writing ++ (connection.rx.map utf8).flatten

/-- A round of the reader moves nothing towards the peer, and takes a piece at most. -/
structure Read (connection after : Connection ε) (piece : Option Bytes) : Prop where
  held : after.held = connection.held
  free : 10 ∉ after.line
  pieces : linesOf connection.unread = piece.toList ++ linesOf after.unread

theorem read_of_readLine {connection after : Connection ε} {result : Except ε (Async Bytes)}
    (free : 10 ∉ connection.line) (reads : connection.readLine = (result, after)) :
    (result = .ok .notReady → connection.Read after none) ∧
      ∀ vec, result = .ok (.ready vec) → vec ≠ [] → connection.Read after (some vec) := by
  have spec := readsUntil free connection.rd connection.incoming
  unfold readLine at reads
  generalize readUntil connection.line connection.rd connection.incoming = read at spec reads
  cases spec with
  | line vecFree whole =>
      cases reads
      refine ⟨nofun, ?_⟩
      rintro _ ⟨⟩ _
      refine ⟨rfl, List.not_mem_nil, ?_⟩
      rw [unread, whole, linesOf_line vecFree]
      rfl
  | ended vecFree whole =>
      cases reads
      refine ⟨nofun, ?_⟩
      rintro _ ⟨⟩ nonempty
      refine ⟨rfl, List.not_mem_nil, ?_⟩
      have nothing : linesOf [] = [] := linesOf_tail List.not_mem_nil
      rw [unread, whole, linesOf_tail vecFree, if_neg nonempty]
      exact congrArg (_ :: ·) nothing.symm
  | notReady filledFree whole =>
      cases reads
      refine ⟨fun _ => ⟨rfl, filledFree, ?_⟩, nofun⟩
      rw [unread, whole, unread, List.append_nil]
      rfl
  | error =>
      cases reads
      exact ⟨nofun, nofun⟩

end Connection

/-- A piece of the stream that a connection has read. -/
structure Piece (κ : Type) where
  sender : κ
  vec : Bytes

/--
The ghost record: the pieces read so far, where the record stood when each
connection was accepted, and the reads with which it was accepted.
-/
structure Record (κ ε : Type) where
  log : List (Piece κ)
  since : κ → Nat
  incoming : κ → List (ReadEvent ε)

variable [DecidableEq κ] [DecidableEq σ]

/-- What a piece is to a connection: a line of another one, or a notice on its own. -/
def told (addr : κ → σ) (display : σ → String) (k : κ) (piece : Piece κ) : Option String :=
  match ofUtf8? piece.vec with
  | some msg => if piece.sender = k then none else some (display (addr piece.sender) ++ ": " ++ msg)
  | none => if piece.sender = k then some "You didn't send valid UTF-8." else none

namespace Record

/-- What the connection was told since it was accepted. -/
def heard (addr : κ → σ) (display : σ → String) (record : Record κ ε) (k : κ) : List String :=
  (record.log.drop (record.since k)).filterMap (told addr display k)

def readBy (record : Record κ ε) (k : κ) : List Bytes :=
  (record.log.filter fun piece => piece.sender = k).map Piece.vec

def say (record : Record κ ε) (piece : Piece κ) : Record κ ε :=
  { record with log := record.log ++ [piece] }

def accept (record : Record κ ε) (k : κ) (incoming : List (ReadEvent ε)) : Record κ ε where
  log := record.log
  since := Function.update record.since k record.log.length
  incoming := Function.update record.incoming k incoming

omit [DecidableEq σ] in
theorem heard_say {addr : κ → σ} {display : σ → String} {record : Record κ ε} {k : κ}
    (within : record.since k ≤ record.log.length) (piece : Piece κ) :
    (record.say piece).heard addr display k =
      record.heard addr display k ++ (told addr display k piece).toList := by
  rw [heard, heard, say, List.drop_append_of_le_length within, List.filterMap_append]
  cases chosen : told addr display k piece with
  | none => simp [chosen]
  | some text => simp [chosen]

theorem readBy_say_own (record : Record κ ε) (k : κ) (vec : Bytes) :
    (record.say ⟨k, vec⟩).readBy k = record.readBy k ++ [vec] := by
  simp [readBy, say]

theorem readBy_say_other (record : Record κ ε) {j k : κ} (other : j ≠ k) (vec : Bytes) :
    (record.say ⟨j, vec⟩).readBy k = record.readBy k := by
  simp [readBy, say, other]

end Record

namespace Chat

def record (chat : Chat κ σ ε) (action : Action κ ε) (record : Record κ ε) : Record κ ε :=
  match action with
  | .accept k incoming => record.accept k incoming
  | .read k =>
      match chat.tasks k with
      | .connected connection =>
          match connection.readLine.1 with
          | .ok (.ready vec) => if vec.length = 0 then record else record.say ⟨k, vec⟩
          | _ => record
      | _ => record
  | .write _ _ => record

variable (addr : κ → σ) (display : σ → String)

def recorded : System (Chat κ σ ε × Record κ ε) (Action κ ε) :=
  (system addr display).recording ⟨[], fun _ => 0, fun _ => []⟩ record

/-- All that one step can do to the connections, and to the record. -/
inductive Acts (chat : Chat κ σ ε) (log : Record κ ε) :
    Action κ ε → Chat κ σ ε → Record κ ε → Prop where
  | accepted {k : κ} (incoming : List (ReadEvent ε)) (absent : chat.tasks k = .absent) :
      Acts chat log (.accept k incoming) (chat.accept addr k incoming) (log.accept k incoming)
  | closed {k : κ} {action : Action κ ε} {connection : Connection ε}
      (live : chat.tasks k = .connected connection) :
      Acts chat log action (chat.close addr k) log
  | waits {k : κ} {connection after : Connection ε} (live : chat.tasks k = .connected connection)
      (reads : connection.readLine = (.ok .notReady, after)) :
      Acts chat log (.read k) (chat.setTask k (.connected after)) log
  | reads {k : κ} {connection after : Connection ε} {vec : Bytes} {next : Chat κ σ ε}
      (live : chat.tasks k = .connected connection)
      (reads : connection.readLine = (.ok (.ready vec), after)) (nonempty : vec ≠ [])
      (handled : (chat.setTask k (.connected after)).handle addr display k (ofUtf8? vec) =
        some next) :
      Acts chat log (.read k) next (log.say ⟨k, vec⟩)
  | writes {k : κ} {event : WriteEvent ε} {connection after : Connection ε}
      (live : chat.tasks k = .connected connection) (held : after.held = connection.held)
      (line : after.line = connection.line) (unread : after.unread = connection.unread) :
      Acts chat log (.write k event) (chat.setTask k (.connected after)) log
  | idle {action : Action κ ε} : Acts chat log action chat log

variable {addr display}

theorem acts_read {chat next : Chat κ σ ε} {log : Record κ ε} {k : κ} {connection : Connection ε}
    (live : chat.tasks k = .connected connection)
    (stepped : chat.read addr display k connection = some next) :
    Acts addr display chat log (.read k) next (chat.record (.read k) log) := by
  simp only [record, live]
  unfold read at stepped
  split at stepped <;> rename_i reads
  · cases stepped
    rw [reads]
    exact .closed live
  · cases stepped
    rw [reads]
    exact .waits live reads
  · rw [reads]
    dsimp only
    split at stepped <;> rename_i length
    · cases stepped
      rw [if_pos length]
      exact .closed live
    · rw [if_neg length]
      exact .reads live reads (fun none => length (congrArg List.length none)) stepped

theorem acts_write {chat next : Chat κ σ ε} {log : Record κ ε} {k : κ} {connection : Connection ε}
    {event : WriteEvent ε} (live : chat.tasks k = .connected connection)
    (stepped : chat.write addr k connection event = some next) :
    Acts addr display chat log (.write k event) next log := by
  unfold write at stepped
  split at stepped
  · rename_i written
    cases queued : connection.rx with
    | cons msg rx =>
        rw [queued] at stepped
        cases stepped
        refine .writes live ?_ rfl rfl
        rw [Connection.held, Connection.held, queued, List.isEmpty_iff.mp written]
        simp
    | nil =>
        rw [queued] at stepped
        dsimp only at stepped
        split at stepped <;> cases stepped
        · exact .idle
        · exact .closed live
  · cases event with
    | wrote n =>
        dsimp only at stepped
        split at stepped
        · cases stepped
          exact .closed live
        · split at stepped <;> cases stepped
          refine .writes live ?_ rfl rfl
          rw [Connection.held, Connection.held, List.append_assoc _ (connection.writing.take n),
            List.take_append_drop]
    | notReady =>
        cases stepped
        exact .idle
    | error failure =>
        cases stepped
        exact .closed live

theorem acts_of_step? {state next : Chat κ σ ε × Record κ ε} {action : Action κ ε}
    (stepped : (recorded addr display).step? state action = some next) :
    Acts addr display state.1 state.2 action next.1 next.2 := by
  obtain ⟨after, moved, rfl⟩ := Option.map_eq_some_iff.mp stepped
  change state.1.step? addr display action = some after at moved
  cases action with
  | accept k incoming =>
      rw [step?] at moved
      split at moved <;> cases moved
      rename_i absent
      exact .accepted incoming absent
  | read k =>
      rw [step?] at moved
      split at moved
      · rename_i live
        exact acts_read live moved
      · cases moved
  | write k event =>
      rw [step?] at moved
      split at moved
      · rename_i live
        exact acts_write live moved
      · cases moved

theorem preserved_of_handle {chat next : Chat κ σ ε} {k : κ} {message : Option String}
    {P : Task ε → Prop}
    (preserves : ∀ msg task after, task.unboundedSend msg = some after → (P after ↔ P task))
    (handled : chat.handle addr display k message = some next) (j : κ) :
    P (next.tasks j) ↔ P (chat.tasks j) := by
  unfold handle at handled
  split at handled
  · obtain ⟨tasks, loop, rfl⟩ := Option.map_eq_some_iff.mp handled
    rw [sendToOthers_eq_sendAll] at loop
    exact sendAll_preserves (preserves _) loop j
  · split at handled
    · cases handled
    · rename_i tx _
      obtain ⟨task, sent, rfl⟩ := Option.map_eq_some_iff.mp handled
      by_cases here : j = tx
      · subst here
        rw [setTask_self]
        exact preserves _ _ _ sent
      · rw [setTask_of_ne _ _ here]

end Chat

/-- What a connection has read so far are the first pieces of what its socket brings. -/
structure Tells (record : Record κ ε) (k : κ) (task : Task ε) : Prop where
  begins : record.readBy k <+: linesOf (Lines.received (record.incoming k))
  absent : task = .absent → record.readBy k = []
  connected : ∀ connection, task = .connected connection → 10 ∉ connection.line ∧
    linesOf (Lines.received (record.incoming k)) = record.readBy k ++ linesOf connection.unread

omit [DecidableEq σ] in
theorem tells_of_unboundedSend {record : Record κ ε} {k : κ} (msg : String) (task after : Task ε)
    (sent : task.unboundedSend msg = some after) : Tells record k after ↔ Tells record k task := by
  cases task with
  | connected connection =>
      cases sent
      constructor
      · rintro ⟨begins, -, connected⟩
        refine ⟨begins, nofun, ?_⟩
        rintro _ ⟨⟩
        have read := connected _ rfl
        exact read
      · rintro ⟨begins, -, connected⟩
        refine ⟨begins, nofun, ?_⟩
        rintro _ ⟨⟩
        exact connected connection rfl
  | absent => cases sent
  | closed => cases sent

omit [DecidableEq σ] in
theorem Tells.read {record : Record κ ε} {k : κ} {connection after : Connection ε}
    (tells : Tells record k (.connected connection)) {piece : Option Bytes}
    (read : connection.Read after piece) {log : Record κ ε}
    (readBy : log.readBy k = record.readBy k ++ piece.toList)
    (incoming : log.incoming k = record.incoming k) : Tells log k (.connected after) := by
  have whole := (tells.connected connection rfl).2
  rw [read.pieces, ← List.append_assoc, ← readBy, ← incoming] at whole
  refine ⟨?_, nofun, ?_⟩
  · rw [whole]
    exact List.prefix_append _ _
  · rintro _ ⟨⟩
    exact ⟨read.free, whole⟩

namespace Chat

theorem tells_step {chat next : Chat κ σ ε} {log after : Record κ ε} {action : Action κ ε}
    (tells : ∀ k, Tells log k (chat.tasks k)) (acts : Acts addr display chat log action next after)
    (k : κ) : Tells after k (next.tasks k) := by
  cases acts with
  | @accepted j incoming absent =>
      by_cases here : k = j
      · subst here
        have quiet := (tells k).absent absent
        have begun : (log.accept k incoming).incoming k = incoming := Function.update_self ..
        have task : (chat.accept addr k incoming).tasks k = .connected ⟨incoming, [], [], [], [], []⟩ :=
          setTask_self ..
        rw [task]
        refine ⟨?_, nofun, ?_⟩
        · change log.readBy k <+: _
          rw [quiet]
          exact List.nil_prefix
        · rintro _ ⟨⟩
          rw [begun]
          refine ⟨List.not_mem_nil, ?_⟩
          change linesOf (Lines.received incoming) = log.readBy k ++ linesOf (Lines.received incoming)
          rw [quiet, List.nil_append]
      · have begun : (log.accept j incoming).incoming k = log.incoming k := Function.update_of_ne here ..
        have task : (chat.accept addr j incoming).tasks k = chat.tasks k := setTask_of_ne _ _ here
        rw [task]
        obtain ⟨begins, absent, connected⟩ := tells k
        constructor
        · rw [begun]
          exact begins
        · exact absent
        · rw [begun]
          exact connected
  | @closed j _ connection live =>
      by_cases here : k = j
      · subst here
        have task : (chat.close addr k).tasks k = .closed := setTask_self ..
        rw [task]
        exact ⟨(tells k).begins, nofun, nofun⟩
      · have task : (chat.close addr j).tasks k = chat.tasks k := setTask_of_ne _ _ here
        rw [task]
        exact tells k
  | @waits j connection after live reads =>
      by_cases here : k = j
      · subst here
        have before := tells k
        rw [live] at before
        rw [setTask_self]
        have read := Connection.read_of_readLine (before.connected connection rfl).1 reads
        exact before.read (read.1 rfl) (List.append_nil _).symm rfl
      · rw [setTask_of_ne _ _ here]
        exact tells k
  | @reads j connection after vec _ live reads nonempty handled =>
      rw [preserved_of_handle (P := Tells (log.say ⟨j, vec⟩) k) tells_of_unboundedSend handled k]
      by_cases here : k = j
      · subst here
        have before := tells k
        rw [live] at before
        rw [setTask_self]
        have read := Connection.read_of_readLine (before.connected connection rfl).1 reads
        exact before.read (read.2 vec rfl nonempty) (log.readBy_say_own k vec) rfl
      · rw [setTask_of_ne _ _ here]
        obtain ⟨begins, absent, connected⟩ := tells k
        have same := log.readBy_say_other (Ne.symm here) vec
        constructor
        · rw [same]
          exact begins
        · rw [same]
          exact absent
        · rw [same]
          exact connected
  | @writes j event connection after live held line unread =>
      by_cases here : k = j
      · subst here
        have before := tells k
        rw [live] at before
        rw [setTask_self]
        refine ⟨before.begins, nofun, ?_⟩
        rintro _ ⟨⟩
        rw [line, unread]
        exact before.connected connection rfl
      · rw [setTask_of_ne _ _ here]
        exact tells k
  | idle => exact tells k

theorem tells_of_run {history : List (Action κ ε)} {state : Chat κ σ ε × Record κ ε}
    (run : (recorded addr display).run? history = some state) (k : κ) :
    Tells state.2 k (state.1.tasks k) :=
  (recorded addr display).invariant (fun state => ∀ k, Tells state.2 k (state.1.tasks k))
    (fun _ => ⟨List.nil_prefix, fun _ => rfl, nofun⟩)
    (fun _ _ _ tells stepped => tells_step tells (acts_of_step? stepped)) run k

/-- All that is held for an open connection is what it was told since it was accepted. -/
structure Held (addr : κ → σ) (display : σ → String) (record : Record κ ε) (k : κ)
    (task : Task ε) : Prop where
  since : task ≠ .absent → record.since k ≤ record.log.length
  held : ∀ connection, task = .connected connection →
    connection.held = ((record.heard addr display k).map utf8).flatten

omit [DecidableEq σ] in
theorem Held.keep {record : Record κ ε} {k : κ} {connection after : Connection ε}
    (held : Held addr display record k (.connected connection))
    (same : after.held = connection.held) : Held addr display record k (.connected after) := by
  refine ⟨fun _ => held.since nofun, ?_⟩
  rintro _ ⟨⟩
  rw [same]
  exact held.held connection rfl

omit [DecidableEq σ] in
theorem Held.say {record : Record κ ε} {k : κ} {connection after : Connection ε}
    (held : Held addr display record k (.connected connection)) {piece : Piece κ}
    (told : after.held =
      connection.held ++ ((told addr display k piece).toList.map utf8).flatten) :
    Held addr display (record.say piece) k (.connected after) := by
  have within := held.since nofun
  refine ⟨fun _ => ?_, ?_⟩
  · exact within.trans (List.length_append ▸ Nat.le_add_right _ _)
  · rintro _ ⟨⟩
    rw [told, held.held connection rfl, Record.heard_say within, List.map_append,
      List.flatten_append]

omit [DecidableEq σ] in
theorem Held.silent {record : Record κ ε} {k : κ} {task : Task ε}
    (held : Held addr display record k task) (shut : ¬ task.Live) (piece : Piece κ) :
    Held addr display (record.say piece) k task := by
  refine ⟨fun present => ?_, fun connection live => absurd ⟨connection, live⟩ shut⟩
  exact (held.since present).trans (List.length_append ▸ Nat.le_add_right _ _)

theorem held_of_handle {chat next : Chat κ σ ε} (sound : chat.Sound addr)
    (owned : (registry addr display).Owned chat) {log : Record κ ε} {j k : κ} (live : chat.Live j)
    {vec : Bytes} (handled : chat.handle addr display j (ofUtf8? vec) = some next)
    (held : Held addr display log k (chat.tasks k)) :
    Held addr display (log.say ⟨j, vec⟩) k (next.tasks k) := by
  by_cases listens : chat.Live k
  · obtain ⟨connection, connected⟩ := listens
    rw [connected] at held
    cases said : ofUtf8? vec with
    | some msg =>
        rw [said] at handled
        by_cases own : j = k
        · -- the loop leaves out the address of the sender
          subst own
          have unlisted : j ∉ others (addr j) chat.connections.entries := by
            intro among
            obtain ⟨address, foreign, entry⟩ := mem_others.mp among
            exact foreign (owned address j ((HashMap.mem_entries_iff _ _ _).mp entry)).1.symm
          obtain ⟨tasks, loop, rfl⟩ := Option.map_eq_some_iff.mp handled
          rw [sendToOthers_eq_sendAll] at loop
          have same : tasks j = chat.tasks j := sendAll_of_notMem loop unlisted
          dsimp only
          rw [same, connected]
          refine held.say ?_
          simp [told, said]
        · have listed := sound.own k ⟨connection, connected⟩
          have foreign : addr j ≠ addr k := by
            intro shared
            have mine := sound.own j live
            rw [shared, listed] at mine
            exact own (Option.some.inj mine).symm
          have received := receives_of_listed owned listed j msg connection next foreign connected
            handled
          rw [received]
          refine held.say ?_
          simp [told, said, own, Connection.held]
    | none =>
        rw [said] at handled
        have mine := sound.own j live
        simp only [handle, mine] at handled
        obtain ⟨task, sent, rfl⟩ := Option.map_eq_some_iff.mp handled
        by_cases own : j = k
        · subst own
          rw [connected] at sent
          cases sent
          rw [setTask_self]
          refine held.say ?_
          simp [told, said, Connection.held]
        · rw [setTask_of_ne _ _ (Ne.symm own), connected]
          refine held.say ?_
          simp [told, said, own]
  · have shut : ¬ (next.tasks k).Live := fun live => listens ((live_handle handled).2 k |>.mp live)
    have absent : next.tasks k = .absent ↔ chat.tasks k = .absent := by
      refine preserved_of_handle (P := (· = .absent)) (fun msg task after sent => ?_) handled k
      cases task with
      | connected connection =>
          cases sent
          exact iff_of_false (by rintro ⟨⟩) (by rintro ⟨⟩)
      | absent => cases sent
      | closed => cases sent
    have still : Held addr display log k (next.tasks k) :=
      ⟨fun present => held.since fun gone => present (absent.mpr gone),
        fun connection live => absurd ⟨connection, live⟩ shut⟩
    exact still.silent shut _

theorem held_step {chat next : Chat κ σ ε} {log after : Record κ ε} {action : Action κ ε}
    (sound : chat.Sound addr) (owned : (registry addr display).Owned chat)
    (tells : ∀ k, Tells log k (chat.tasks k))
    (held : ∀ k, Held addr display log k (chat.tasks k))
    (acts : Acts addr display chat log action next after) (k : κ) :
    Held addr display after k (next.tasks k) := by
  cases acts with
  | @accepted j incoming absent =>
      by_cases here : k = j
      · subst here
        have since : (log.accept k incoming).since k = log.log.length := Function.update_self ..
        have task : (chat.accept addr k incoming).tasks k = .connected ⟨incoming, [], [], [], [], []⟩ :=
          setTask_self ..
        rw [task]
        refine ⟨fun _ => since.le, ?_⟩
        rintro _ ⟨⟩
        have quiet : (log.accept k incoming).heard addr display k = [] := by
          rw [Record.heard, since]
          change (log.log.drop log.log.length).filterMap _ = []
          rw [List.drop_length]
          rfl
        rw [quiet]
        rfl
      · have since : (log.accept j incoming).since k = log.since k := Function.update_of_ne here ..
        have task : (chat.accept addr j incoming).tasks k = chat.tasks k := setTask_of_ne _ _ here
        rw [task]
        refine ⟨fun present => since.le.trans ((held k).since present), fun connection live => ?_⟩
        rw [Record.heard, since]
        exact (held k).held connection live
  | @closed j _ connection live =>
      by_cases here : k = j
      · subst here
        have task : (chat.close addr k).tasks k = .closed := setTask_self ..
        rw [task]
        refine ⟨fun _ => (held k).since ?_, nofun⟩
        rw [live]
        nofun
      · have task : (chat.close addr j).tasks k = chat.tasks k := setTask_of_ne _ _ here
        rw [task]
        exact held k
  | @waits j connection after live reads =>
      have before := tells j
      rw [live] at before
      have read := Connection.read_of_readLine (before.connected connection rfl).1 reads
      by_cases here : k = j
      · subst here
        have earlier := held k
        rw [live] at earlier
        rw [setTask_self]
        exact earlier.keep (read.1 rfl).held
      · rw [setTask_of_ne _ _ here]
        exact held k
  | @reads j connection after vec _ live reads nonempty handled =>
      have before := tells j
      rw [live] at before
      have read := Connection.read_of_readLine (before.connected connection rfl).1 reads
      have lives := live_connected live after
      have soundAfter : (chat.setTask j (.connected after)).Sound addr := sound.congr rfl lives
      have ownedAfter : (registry addr display).Owned (chat.setTask j (.connected after)) :=
        fun address tx listed => (owned address tx listed).imp id (lives tx).mpr
      refine held_of_handle soundAfter ownedAfter ((lives j).mpr ⟨_, live⟩) handled ?_
      by_cases here : k = j
      · subst here
        have earlier := held k
        rw [live] at earlier
        rw [setTask_self]
        exact earlier.keep (read.2 vec rfl nonempty).held
      · rw [setTask_of_ne _ _ here]
        exact held k
  | @writes j event connection after live same line unread =>
      by_cases here : k = j
      · subst here
        have earlier := held k
        rw [live] at earlier
        rw [setTask_self]
        exact earlier.keep same
      · rw [setTask_of_ne _ _ here]
        exact held k
  | idle => exact held k

theorem held_of_run {history : List (Action κ ε)} {state : Chat κ σ ε × Record κ ε}
    (run : (recorded addr display).run? history = some state)
    (distinct : (system addr display).Always (DistinctOpen addr) history) (k : κ) :
    Held addr display state.2 k (state.1.tasks k) := by
  revert distinct k
  refine (recorded addr display).run?_induction (motive := fun history state =>
    (system addr display).Always (DistinctOpen addr) history →
      ∀ k, Held addr display state.2 k (state.1.tasks k)) ?_ ?_ run
  · intro _ k
    exact ⟨fun present => absurd rfl present, nofun⟩
  · intro earlier middle action next reached ih stepped distinct
    have reaches := System.run?_of_recording _ reached
    have further : (recorded addr display).run? (earlier ++ [action]) = some next := by
      rw [(recorded addr display).run?_snoc, reached]
      exact stepped
    have before := (System.always_snoc _ (System.run?_of_recording _ further)).mp distinct |>.1
    exact held_step (sound_of_run reaches before) (Registry.owned_of_run reaches)
      (tells_of_run reached) (ih before) (acts_of_step? stepped)

/--
Broadcast.  While the addresses of open connections are pairwise distinct, in
every order of what the connections do: the bytes that the socket of an open
connection accepted, those that are being written and those in its channel are
together what it was told since it was accepted, each line of another connection
behind its address and a notice for each own line that is not UTF-8, once and in
order.  What a connection has read are the first pieces of the stream that its
socket brings, and what is not read yet are the others, however the stream is
cut into reads.
-/
theorem lines_to_all {history : List (Action κ ε)} {chat : Chat κ σ ε} {record : Record κ ε}
    (run : (recorded addr display).run? history = some (chat, record))
    (distinct : (system addr display).Always (DistinctOpen addr) history) :
    (∀ k connection, chat.tasks k = .connected connection →
      connection.accepted ++ connection.writing ++ (connection.rx.map utf8).flatten =
          ((record.heard addr display k).map utf8).flatten ∧
        linesOf (Lines.received (record.incoming k)) =
          record.readBy k ++ linesOf connection.unread) ∧
      ∀ k, record.readBy k <+: linesOf (Lines.received (record.incoming k)) := by
  refine ⟨fun k connection live => ⟨?_, ?_⟩, fun k => (tells_of_run run k).begins⟩
  · exact (held_of_run run distinct k).held connection live
  · exact ((tells_of_run run k).connected connection live).2

/-- The first connection says `hi` in two reads, and then something that is not UTF-8. -/
def twoLines : List (Action Nat Unit) :=
  [.accept 0 [.chunk [104] (List.cons_ne_nil _ _), .chunk [105, 10] (List.cons_ne_nil _ _),
    .chunk [0xFE, 10] (List.cons_ne_nil _ _)], .accept 1 [.notReady], .read 0, .read 0,
    .write 1 .notReady, .write 1 (.wrote 2)]

theorem lines_to_all_two_lines :
    ∃ state, (recorded id fun _ => "a").run? twoLines = some state ∧
      state.2.readBy 0 = [[104, 105, 10], [0xFE, 10]] ∧
      state.2.readBy 0 <+: linesOf (Lines.received (state.2.incoming 0)) :=
  ⟨_, rfl, rfl, (@lines_to_all Nat Nat Unit _ _ id (fun _ => "a") twoLines _ _ rfl
    fun _ _ _ _ _ _ _ _ same => same).2 0⟩

end Chat

end RustDemo.TokioChat
