import RustDemo.Stream.TerminatedDecoder
import RustDemo.Text.JsonString

/-!
# The line codec of `tcp_echo`

`LineCodec` cuts the input behind each `\n`, and `Echo` answers each request
with itself.  The transport decodes until `None` or `Err` after each read, and
an error ends the connection.
-/

namespace RustDemo.TcpEcho

open RustDemo.Stream RustDemo.Text

/-- An `io::Error` of `ErrorKind::Other`. -/
inductive IoError where
  | other (text : String)
  deriving DecidableEq

namespace LineCodec

def encode (msg : String) (buf : List UInt8) : Except IoError Unit × List UInt8 :=
  let buf := buf ++ utf8 msg
  let buf := buf ++ [10]
  (.ok (), buf)

/-- `from_utf8` of a line. -/
def ofLine (line : List UInt8) : Except IoError String :=
  match ofUtf8? line with
  | some s => .ok s
  | none => .error (.other "invalid UTF-8")

def decode (buf : List UInt8) : Except IoError (Option String) × List UInt8 :=
  match buf.findIdx? (· == 10) with
  | some i =>
      let (line, buf) := buf.splitAt i
      let (_, buf) := buf.splitAt 1
      ((ofLine line).map some, buf)
  | none => (.ok none, buf)

end LineCodec

namespace Echo

def call (req : String) : Except IoError String := .ok req

end Echo

def newline : Terminator UInt8 where
  word := [10]
  nonempty := List.cons_ne_nil _ _
  unbordered := by
    intro border begins _
    rcases border with _ | ⟨first, more⟩
    · exact Or.inl rfl
    · exact Or.inr (begins.eq_of_length_le (Nat.succ_le_succ (Nat.zero_le _)))

theorem newline_free_iff {line : List UInt8} : newline.Free line ↔ 10 ∉ line :=
  not_congr (List.singleton_infix_iff 10 line)

namespace LineCodec

theorem decode_eq (buf : List UInt8) : decode buf = newline.decodeLine ofLine buf := by
  rw [decode]
  cases found : buf.findIdx? (· == 10) with
  | none =>
      have absent := List.findIdx?_eq_none_iff.mp found
      have free : newline.Free buf := newline_free_iff.mpr fun held => by
        cases absent 10 held
      rw [Terminator.decodeLine_of_free free]
  | some i =>
      obtain ⟨inside, here, before⟩ := List.findIdx?_eq_some_iff_getElem.mp found
      have free : newline.Free (buf.take i) := newline_free_iff.mpr fun held => by
        obtain ⟨j, jIn, same⟩ := List.getElem_of_mem held
        rw [List.length_take] at jIn
        rw [List.getElem_take] at same
        exact before j (by omega) (beq_iff_eq.mpr same)
      have split : buf = buf.take i ++ (newline.word ++ buf.drop (i + 1)) := by
        have letter : newline.word = [buf[i]] := congrArg (fun b => [b]) (beq_iff_eq.mp here).symm
        rw [letter, List.singleton_append, List.getElem_cons_drop, List.take_append_drop]
      have cut : newline.cut buf = some (buf.take i, buf.drop (i + 1)) :=
        (congrArg newline.cut split).trans (Terminator.cut_line _ free)
      rw [Terminator.decodeLine_of_cut cut]
      simp only [List.splitAt_eq, List.drop_drop]

def codec : Decoder UInt8 IoError String where
  decode := decode
  pending buffer rest decoded :=
    (newline.decoder ofLine).pending buffer rest ((decode_eq buffer).symm.trans decoded)
  shrinks buffer result rest decoded :=
    (newline.decoder ofLine).shrinks buffer result rest ((decode_eq buffer).symm.trans decoded)
  stable buffer result rest more decoded decided :=
    (decode_eq _).trans ((newline.decoder ofLine).stable buffer result rest more
      ((decode_eq buffer).symm.trans decoded) decided)

theorem codec_eq : codec = newline.decoder ofLine := by
  have same : codec.decode = (newline.decoder ofLine).decode := funext decode_eq
  cases held : codec with
  | mk decode pending shrinks stable =>
      rw [held] at same
      cases same
      rfl

theorem ofLine_eq_ok {line : List UInt8} {msg : String} (parsed : ofLine line = .ok msg) :
    line = utf8 msg := by
  unfold ofLine at parsed
  split at parsed
  · rename_i spelled
    cases parsed
    exact (utf8_of_ofUtf8? spelled).symm
  · cases parsed

theorem ofLine_eq_error {line : List UInt8} {failure : IoError} (fails : ofLine line = .error failure) :
    ofUtf8? line = none ∧ failure = .other "invalid UTF-8" := by
  unfold ofLine at fails
  split at fails
  · cases fails
  · rename_i unspelled
    cases fails
    exact ⟨unspelled, rfl⟩

end LineCodec

/-! ## The server -/

/-- Each request that was decoded is answered into the output buffer. -/
def respond (out : List UInt8) : List (Except IoError String) → List UInt8
  | [] => out
  | .error _ :: results => respond out results
  | .ok req :: results =>
      match Echo.call req with
      | .ok msg => respond (LineCodec.encode msg out).2 results
      | .error _ => respond out results

theorem respond_ok (out : List UInt8) (msgs : List String) (results : List (Except IoError String)) :
    respond out (msgs.map .ok ++ results) =
      respond (out ++ newline.join (msgs.map utf8)) results := by
  induction msgs generalizing out with
  | nil => rw [List.map_nil, List.nil_append, List.map_nil, Terminator.join_nil, List.append_nil]
  | cons msg msgs ih =>
      show respond (LineCodec.encode msg out).2 (msgs.map .ok ++ results) = _
      rw [ih, List.map_cons, Terminator.join_cons, LineCodec.encode, List.append_assoc,
        List.append_assoc]
      rfl

/-- Complete lines that are valid UTF-8. -/
def ValidLines (bytes : List UInt8) : Prop := newline.GoodLines (fun line => (ofUtf8? line).isSome) bytes

/-- The longest beginning of the stream that is complete lines of valid UTF-8. -/
structure LongestValid (stream output : List UInt8) : Prop where
  valid : ValidLines output
  begins : output <+: stream
  longest : ∀ other, ValidLines other → other <+: stream → other <+: output

/-- What was decoded, and what is left in the buffer and unread. -/
inductive Served (stream output : List UInt8) (results : List (Except IoError String))
    (buffer : List UInt8) (unread : List (List UInt8)) : Prop where
  | partialLine {msgs : List String} (decoded : results = msgs.map .ok) (noLine : 10 ∉ buffer)
      (glued : stream = output ++ buffer) (allRead : unread = [])
  | badLine {msgs : List String} {bad : List UInt8}
      (decoded : results = msgs.map .ok ++ [.error (.other "invalid UTF-8")]) (oneLine : 10 ∉ bad)
      (invalid : ofUtf8? bad = none)
      (glued : stream = output ++ bad ++ 10 :: (buffer ++ unread.flatten))

theorem lines_eq {lines : List (List UInt8)} {msgs : List String}
    (parsed : lines.map LineCodec.ofLine = msgs.map .ok) : lines = msgs.map utf8 := by
  induction lines generalizing msgs with
  | nil =>
      cases msgs with
      | nil => rfl
      | cons msg msgs => cases parsed
  | cons line lines ih =>
      cases msgs with
      | nil => cases parsed
      | cons msg msgs =>
          rw [List.map_cons, List.map_cons, List.cons.injEq] at parsed
          rw [List.map_cons, ← ih parsed.2, LineCodec.ofLine_eq_ok parsed.1]

theorem longestValid_join {msgs : List String} {rest : List UInt8}
    (free : ∀ line ∈ msgs.map utf8, newline.Free line)
    (stops : newline.Stops (fun line => (ofUtf8? line).isSome) rest) :
    LongestValid (newline.join (msgs.map utf8) ++ rest) (newline.join (msgs.map utf8)) := by
  have good : ∀ line ∈ msgs.map utf8, newline.Free line ∧ (ofUtf8? line).isSome := by
    intro line among
    refine ⟨free line among, ?_⟩
    obtain ⟨msg, _, rfl⟩ := List.mem_map.mp among
    rw [ofUtf8?_utf8]
    rfl
  exact ⟨⟨_, rfl, good⟩, List.prefix_append _ _, fun other valid begins =>
    Terminator.prefix_of_goodLines good stops valid begins⟩

/--
The server answers with the longest beginning of the stream that is complete
lines of valid UTF-8.  Behind it a partial line stays in the buffer, or the
first bad line has been taken off with its `\n`.
-/
theorem echoes (chunks : List (List UInt8)) :
    LongestValid chunks.flatten (respond [] (LineCodec.codec.feed [] chunks).1) ∧
    Served chunks.flatten (respond [] (LineCodec.codec.feed [] chunks).1)
      (LineCodec.codec.feed [] chunks).1 (LineCodec.codec.feed [] chunks).2.1
      (LineCodec.codec.feed [] chunks).2.2 := by
  have whole := LineCodec.codec.drain_eq_feed [] chunks Decoder.waiting_nil
  have allRead := LineCodec.codec.feed_unread [] chunks
  have read := newline.read_drain LineCodec.ofLine chunks.flatten
  rw [List.nil_append] at whole
  rw [← LineCodec.codec_eq, whole] at read
  cases fed : LineCodec.codec.feed [] chunks with
  | mk results left =>
      cases left with
      | mk buffer unread =>
          rw [fed] at read allRead
          dsimp only at read allRead ⊢
          generalize rest : buffer ++ unread.flatten = tail at read
          cases read with
          | @waiting lines msgs _ free parsed restFree glued =>
              cases lines_eq parsed
              have answered : respond [] (msgs.map .ok) = newline.join (msgs.map utf8) := by
                have out := respond_ok [] msgs []
                rw [List.append_nil, List.nil_append] at out
                exact out
              have none : unread = [] := allRead (failed_map_ok msgs)
              rw [none, List.flatten_nil, List.append_nil] at rest
              rw [answered, glued]
              exact ⟨longestValid_join free (Terminator.stops_of_free restFree),
                .partialLine rfl (rest ▸ newline_free_iff.mp restFree) (by rw [rest]) none⟩
          | @failed lines msgs bad _ failure free parsed badFree fails glued =>
              obtain ⟨invalid, rfl⟩ := LineCodec.ofLine_eq_error fails
              cases lines_eq parsed
              have isBad : ¬ (ofUtf8? bad).isSome := by
                rw [invalid]
                exact Bool.false_ne_true
              have answered : respond [] (msgs.map .ok ++ [.error (.other "invalid UTF-8")]) =
                  newline.join (msgs.map utf8) := by
                rw [respond_ok, List.nil_append]
                rfl
              rw [answered, glued]
              refine ⟨longestValid_join free (Terminator.stops_of_bad badFree isBad),
                .badLine rfl (newline_free_iff.mp badFree) invalid ?_⟩
              rw [rest, List.append_assoc]
              rfl

end RustDemo.TcpEcho
