import RustDemo.Stream.Incremental
import Mathlib.Data.List.Basic

/-!
# Length-prefixed frames

A frame is a payload behind its length in two big-endian bytes.  `decode` takes
one frame off a buffer and parses its payload; `frames` is the grammar of a
whole stream.
-/

namespace RustDemo.Stream.LengthPrefixed

def readU16 : List UInt8 → Nat
  | hi :: lo :: _ => hi.toNat * 256 + lo.toNat
  | _ => 0

def putU16 (n : UInt16) : List UInt8 :=
  [UInt8.ofNat (n.toNat / 256), UInt8.ofNat (n.toNat % 256)]

/-- A payload behind its length; the length is cut to sixteen bits. -/
def frame (payload : List UInt8) : List UInt8 :=
  putU16 (UInt16.ofNat payload.length) ++ payload

section Decode

variable {ε α : Type} (parse : List UInt8 → Except ε α)

/-- Take one complete frame off the buffer and parse it. -/
def decode (src : List UInt8) : Except ε (Option α) × List UInt8 :=
  if src.length < 2 then (.ok none, src)
  else
    let size := readU16 src
    if src.length ≥ size + 2 then
      let body := src.drop 2
      ((parse (body.take size)).map some, body.drop size)
    else (.ok none, src)

/-- Append one frame to the output; this never fails. -/
def encode (text dst : List UInt8) : Except ε Unit × List UInt8 :=
  (.ok (), dst ++ putU16 (UInt16.ofNat text.length) ++ text)

theorem encode_eq (text dst : List UInt8) :
    (encode text dst : Except ε Unit × List UInt8) = (.ok (), dst ++ frame text) := by
  unfold encode frame
  rw [List.append_assoc]

theorem readU16_append {src : List UInt8} (enough : 2 ≤ src.length) (more : List UInt8) :
    readU16 (src ++ more) = readU16 src := by
  match src, enough with
  | hi :: lo :: _, _ => rfl

theorem readU16_frame (payload more : List UInt8) :
    readU16 (frame payload ++ more) = payload.length % 65536 := by
  have size : (UInt16.ofNat payload.length).toNat = payload.length % 65536 := by
    simp
  have bound : payload.length % 65536 < 65536 := Nat.mod_lt _ (by decide)
  simp only [frame, putU16, List.cons_append, List.nil_append, readU16, size, UInt8.toNat_ofNat']
  omega

theorem length_frame (payload : List UInt8) : (frame payload).length = payload.length + 2 := by
  simp only [frame, putU16, List.cons_append, List.nil_append, List.length_cons]

theorem drop_frame (payload more : List UInt8) : (frame payload ++ more).drop 2 = payload ++ more := by
  simp [frame, putU16]

/-- A header and as many bytes as it announces are the frame of these bytes. -/
theorem frame_take {src : List UInt8} (enough : readU16 src + 2 ≤ src.length) :
    frame ((src.drop 2).take (readU16 src)) = src.take (readU16 src + 2) := by
  match src, enough with
  | hi :: lo :: body, enough =>
      have high := hi.toNat_lt
      have low := lo.toNat_lt
      have size : (body.take (hi.toNat * 256 + lo.toNat)).length = hi.toNat * 256 + lo.toNat := by
        rw [List.length_take]
        simp only [readU16, List.length_cons] at enough
        omega
      have wrap : (UInt16.ofNat (hi.toNat * 256 + lo.toNat)).toNat = hi.toNat * 256 + lo.toNat := by
        rw [UInt16.toNat_ofNat']
        omega
      have first : (hi.toNat * 256 + lo.toNat) / 256 = hi.toNat := by omega
      have second : (hi.toNat * 256 + lo.toNat) % 256 = lo.toNat := by omega
      simp only [readU16, frame, putU16, List.drop_succ_cons, List.drop_zero, size, wrap, first,
        second, UInt8.ofNat_toNat, List.take_succ_cons, List.cons_append, List.nil_append]
  | [], enough => simp [readU16] at enough
  | [_], enough => simp [readU16] at enough

theorem decode_short {src : List UInt8} (short : src.length < readU16 src + 2) :
    decode parse src = (.ok none, src) := by
  unfold decode
  split
  · rfl
  · simp only [ge_iff_le]
    rw [if_neg (Nat.not_le.mpr short)]

theorem decode_complete {src : List UInt8} (complete : readU16 src + 2 ≤ src.length) :
    decode parse src = ((parse ((src.drop 2).take (readU16 src))).map some,
      src.drop (readU16 src + 2)) := by
  unfold decode
  rw [if_neg (by omega)]
  simp only [ge_iff_le, complete, ↓reduceIte, List.drop_drop]
  rw [Nat.add_comm 2]

theorem decode_decided {src rest : List UInt8} {result : Except ε (Option α)}
    (decoded : decode parse src = (result, rest)) (decided : result ≠ .ok none) :
    readU16 src + 2 ≤ src.length ∧ rest = src.drop (readU16 src + 2) ∧
      result = (parse ((src.drop 2).take (readU16 src))).map some := by
  by_cases complete : readU16 src + 2 ≤ src.length
  · rw [decode_complete parse complete] at decoded
    cases decoded
    exact ⟨complete, rfl, rfl⟩
  · rw [decode_short parse (Nat.not_le.mp complete)] at decoded
    cases decoded
    exact absurd rfl decided

theorem map_some_ne_none (outcome : Except ε α) : outcome.map some ≠ .ok none := by
  cases outcome with
  | error failure => exact nofun
  | ok item => exact nofun

theorem decode_pending {src rest : List UInt8} (decoded : decode parse src = (.ok none, rest)) :
    rest = src := by
  by_cases complete : readU16 src + 2 ≤ src.length
  · rw [decode_complete parse complete, Prod.mk.injEq] at decoded
    exact absurd decoded.1 (map_some_ne_none _)
  · rw [decode_short parse (Nat.not_le.mp complete)] at decoded
    exact (Prod.mk.inj decoded).2.symm

def decoder : Decoder UInt8 ε α where
  decode := decode parse
  pending _ _ decoded := decode_pending parse decoded
  shrinks src result rest decoded decided := by
    obtain ⟨complete, same, _⟩ := decode_decided parse decoded decided
    rw [same, List.length_drop]
    omega
  stable src result rest more decoded decided := by
    obtain ⟨complete, rfl, rfl⟩ := decode_decided parse decoded decided
    have header : readU16 (src ++ more) = readU16 src := readU16_append (by omega) more
    rw [decode_complete parse (by rw [header, List.length_append]; omega), header,
      List.drop_append_of_le_length (by omega), List.drop_append_of_le_length complete,
      List.take_append_of_le_length (by rw [List.length_drop]; omega)]

/-- Decoding a frame with a payload of at most 65535 bytes gives that payload back. -/
theorem decode_frame {payload : List UInt8} (fits : payload.length ≤ 65535) (more : List UInt8) :
    decode parse (frame payload ++ more) = ((parse payload).map some, more) := by
  have header : readU16 (frame payload ++ more) = payload.length := by
    rw [readU16_frame, Nat.mod_eq_of_lt (by omega)]
  rw [decode_complete parse (by rw [header, List.length_append, length_frame]; omega), header,
    drop_frame, List.take_left]
  congr 1
  rw [← length_frame, List.drop_left]

theorem decode_frame_of_long {payload : List UInt8} (long : 65535 < payload.length)
    (result : Except ε (Option α)) (decided : result ≠ .ok none) :
    decode parse (frame payload ++ []) ≠ (result, []) := by
  intro decoded
  obtain ⟨complete, consumed, _⟩ := decode_decided parse decoded decided
  have header := readU16_frame payload []
  have all : (frame payload ++ []).length ≤ readU16 (frame payload ++ []) + 2 :=
    List.drop_eq_nil_iff.mp consumed.symm
  rw [header, List.append_nil, length_frame] at all
  have small : payload.length % 65536 < 65536 := Nat.mod_lt _ (by decide)
  omega

end Decode

/-! ## The grammar of a stream -/

theorem length_behind_lt {stream : List UInt8} (complete : readU16 stream + 2 ≤ stream.length) :
    (stream.drop (readU16 stream + 2)).length < stream.length := by
  rw [List.length_drop]
  omega

/-- The payloads of the complete frames of a stream, and the incomplete rest. -/
def frames (stream : List UInt8) : List (List UInt8) × List UInt8 :=
  if complete : readU16 stream + 2 ≤ stream.length then
    let later := frames (stream.drop (readU16 stream + 2))
    ((stream.drop 2).take (readU16 stream) :: later.1, later.2)
  else ([], stream)
termination_by stream.length
decreasing_by exact length_behind_lt complete

theorem frames_complete {stream : List UInt8} (complete : readU16 stream + 2 ≤ stream.length) :
    frames stream = ((stream.drop 2).take (readU16 stream) ::
      (frames (stream.drop (readU16 stream + 2))).1,
      (frames (stream.drop (readU16 stream + 2))).2) := by
  rw [frames, dif_pos complete]

theorem frames_short {stream : List UInt8} (short : stream.length < readU16 stream + 2) :
    frames stream = ([], stream) := by
  rw [frames, dif_neg (Nat.not_le.mpr short)]

theorem frames_flatten (stream : List UInt8) :
    ((frames stream).1.map frame).flatten ++ (frames stream).2 = stream := by
  induction stream using frames.induct with
  | case1 stream complete ih =>
      rw [frames_complete complete, List.map_cons, List.flatten_cons, List.append_assoc, ih,
        frame_take complete, List.take_append_drop]
  | case2 stream incomplete =>
      rw [frames_short (Nat.not_le.mp incomplete)]
      rfl

/-- A list of payloads of legal size is read back from the concatenation of its frames. -/
theorem frames_map_frame {payloads : List (List UInt8)}
    (fits : ∀ payload ∈ payloads, payload.length ≤ 65535) :
    frames (payloads.map frame).flatten = (payloads, []) := by
  induction payloads with
  | nil => exact frames_short (by decide)
  | cons payload payloads ih =>
      have here := fits payload List.mem_cons_self
      rw [List.map_cons, List.flatten_cons]
      have header : readU16 (frame payload ++ (payloads.map frame).flatten) = payload.length := by
        rw [readU16_frame, Nat.mod_eq_of_lt (by omega)]
      rw [frames_complete (by rw [header, List.length_append, length_frame]; omega), header,
        drop_frame, List.take_left, ← length_frame, List.drop_left,
        ih fun other listed => fits other (List.mem_cons_of_mem payload listed)]

section Reassembly

variable {ε α : Type} (parse : List UInt8 → Except ε α)

def unparsed (stream : List UInt8) : List UInt8 :=
  (((frames stream).1.drop (parseAll parse (frames stream).1).length).map frame).flatten ++
    (frames stream).2

theorem drain_eq_parseAll (stream : List UInt8) :
    (decoder parse).drain stream = (parseAll parse (frames stream).1, unparsed parse stream) := by
  unfold unparsed
  induction stream using frames.induct with
  | case1 stream complete ih =>
      have decoded : (decoder parse).decode stream = _ := decode_complete parse complete
      rw [frames_complete complete, parseAll]
      cases parsed : parse ((stream.drop 2).take (readU16 stream)) with
      | ok item =>
          rw [parsed] at decoded
          rw [Decoder.drain_of_item decoded, ih]
          rfl
      | error failure =>
          rw [parsed] at decoded
          rw [Decoder.drain_of_error decoded]
          simp only [List.length_singleton, List.drop_succ_cons, List.drop_zero]
          rw [frames_flatten]
  | case2 stream incomplete =>
      have waiting : (decoder parse).Waiting stream :=
        decode_short parse (Nat.not_le.mp incomplete)
      rw [Decoder.drain_of_waiting waiting, frames_short (Nat.not_le.mp incomplete)]
      rfl

theorem feed_eq_parseAll (chunks : List (List UInt8)) :
    ((decoder parse).feed [] chunks).1 = parseAll parse (frames chunks.flatten).1 ∧
      ((decoder parse).feed [] chunks).2.1 ++ ((decoder parse).feed [] chunks).2.2.flatten =
        unparsed parse chunks.flatten := by
  have whole := (decoder parse).drain_eq_feed [] chunks Decoder.waiting_nil
  rw [List.nil_append, drain_eq_parseAll] at whole
  obtain ⟨results, rest⟩ := Prod.mk.inj whole
  exact ⟨results.symm, rest.symm⟩

theorem unparsed_of_clean (stream : List UInt8)
    (clean : failed (parseAll parse (frames stream).1) = false) :
    unparsed parse stream = (frames stream).2 := by
  unfold unparsed
  rw [length_parseAll parse clean, List.drop_length]
  rfl

end Reassembly

end RustDemo.Stream.LengthPrefixed
