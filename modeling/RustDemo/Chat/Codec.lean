import RustDemo.Chat.Json
import RustDemo.Stream.LengthPrefixed

/-!
# The chat codecs

`ChatCodec` reads requests and writes responses, `ClientChatCodec` does the
reverse; both frame a JSON text behind its length in two bytes.  The crates
`actor_ws_tcp_chat`, `actor_chat` and `client` contain the same code, and `chat`
has the codec of the server side only.
-/

namespace RustDemo.Chat

open RustDemo.Stream RustDemo.Stream.LengthPrefixed RustDemo.Text

variable {ε α : Type}

namespace ChatCodec

def decode (json : Json ε ChatRequest) (src : List UInt8) :
    Except ε (Option ChatRequest) × List UInt8 :=
  LengthPrefixed.decode json.fromSlice src

def encode (json : Json ε ChatResponse) (msg : ChatResponse) (dst : List UInt8) :
    Except ε Unit × List UInt8 :=
  LengthPrefixed.encode (json.toString msg) dst

def decoder (json : Json ε ChatRequest) : Decoder UInt8 ε ChatRequest :=
  { LengthPrefixed.decoder json.fromSlice with decode := decode json }

end ChatCodec

namespace ClientChatCodec

def decode (json : Json ε ChatResponse) (src : List UInt8) :
    Except ε (Option ChatResponse) × List UInt8 :=
  LengthPrefixed.decode json.fromSlice src

def encode (json : Json ε ChatRequest) (msg : ChatRequest) (dst : List UInt8) :
    Except ε Unit × List UInt8 :=
  LengthPrefixed.encode (json.toString msg) dst

def decoder (json : Json ε ChatResponse) : Decoder UInt8 ε ChatResponse :=
  { LengthPrefixed.decoder json.fromSlice with decode := decode json }

end ClientChatCodec

/-- What one call may do to the buffer, and what feeding a cut stream yields. -/
structure Reassembles (codec : Decoder UInt8 ε α) (parse : List UInt8 → Except ε α) : Prop where
  waits : ∀ src rest, codec.decode src = (.ok none, rest) → rest = src
  consumes : ∀ src result rest, codec.decode src = (result, rest) → result ≠ .ok none →
    readU16 src + 2 ≤ src.length ∧ rest = src.drop (readU16 src + 2)
  results : ∀ chunks, (codec.feed [] chunks).1 = parseAll parse (frames chunks.flatten).1
  remains : ∀ chunks, failed (codec.feed [] chunks).1 = false →
    (codec.feed [] chunks).2 = ((frames chunks.flatten).2, [])
  behind : ∀ chunks, (codec.feed [] chunks).2.1 ++ (codec.feed [] chunks).2.2.flatten =
    unparsed parse chunks.flatten

theorem decoder_reassembles (parse : List UInt8 → Except ε α) :
    Reassembles (LengthPrefixed.decoder parse) parse where
  waits src rest decoded := decode_pending parse decoded
  consumes src result rest decoded decided := by
    obtain ⟨complete, consumed, _⟩ := decode_decided parse decoded decided
    exact ⟨complete, consumed⟩
  results chunks := (feed_eq_parseAll parse chunks).1
  remains chunks clean := by
    obtain ⟨results, rest⟩ := feed_eq_parseAll parse chunks
    have unread := Decoder.feed_unread [] chunks clean
    rw [unread, List.flatten_nil, List.append_nil] at rest
    rw [results] at clean
    rw [← unparsed_of_clean parse chunks.flatten clean, ← rest, ← unread]
  behind chunks := (feed_eq_parseAll parse chunks).2

def encodeAll (encode : α → List UInt8 → Except ε Unit × List UInt8) (msgs : List α) : List UInt8 :=
  msgs.foldl (fun dst msg => (encode msg dst).2) []

theorem encodeAll_eq_flatten (text : α → List UInt8) (msgs : List α) :
    encodeAll (fun msg dst => (LengthPrefixed.encode (text msg) dst : Except ε Unit × List UInt8)) msgs =
      ((msgs.map text).map frame).flatten := by
  have grow : ∀ dst, msgs.foldl (fun dst msg =>
      (LengthPrefixed.encode (text msg) dst : Except ε Unit × List UInt8).2) dst =
        dst ++ ((msgs.map text).map frame).flatten := by
    induction msgs with
    | nil => simp
    | cons msg msgs ih =>
        intro dst
        simp only [List.foldl_cons, encode_eq, List.map_cons, List.flatten_cons] at ih ⊢
        rw [ih, List.append_assoc]
  exact grow []

theorem feed_encodeAll {json : Json ε α} (roundTrips : json.RoundTrips) (msgs : List α)
    (fits : ∀ msg ∈ msgs, (json.toString msg).length ≤ 65535) (chunks : List (List UInt8))
    (cut : chunks.flatten =
      encodeAll (fun msg dst =>
        (LengthPrefixed.encode (json.toString msg) dst : Except ε Unit × List UInt8)) msgs) :
    (LengthPrefixed.decoder json.fromSlice).feed [] chunks = (msgs.map .ok, [], []) := by
  have reassembles := decoder_reassembles json.fromSlice
  have grammar : frames chunks.flatten = (msgs.map json.toString, []) := by
    rw [cut, encodeAll_eq_flatten]
    apply frames_map_frame
    intro payload listed
    obtain ⟨msg, member, rfl⟩ := List.mem_map.mp listed
    exact fits msg member
  have results := reassembles.results chunks
  rw [grammar] at results
  have parsed : parseAll json.fromSlice (msgs.map json.toString) = msgs.map .ok := by
    apply parseAll_map_ok
    rw [List.map_map]
    exact List.map_congr_left fun msg _ => roundTrips msg
  rw [parsed] at results
  have clean : failed ((LengthPrefixed.decoder json.fromSlice).feed [] chunks).1 = false := by
    rw [results]
    simp [failed, Except.isOk, Except.toBool]
  have remains := reassembles.remains chunks clean
  rw [grammar] at remains
  exact Prod.ext results remains

/--
Stream reassembly.  However a byte stream is cut into chunks, both decoders
give the payloads of its frames parsed one by one up to the first failure, and
a cutting of what the peer encoded gives exactly the encoded messages.
-/
theorem stream_reassembly (requests : Json ε ChatRequest) (responses : Json ε ChatResponse)
    (requestsRoundTrip : requests.RoundTrips) (responsesRoundTrip : responses.RoundTrips) :
    Reassembles (ChatCodec.decoder requests) requests.fromSlice ∧
      Reassembles (ClientChatCodec.decoder responses) responses.fromSlice ∧
      (∀ msgs : List ChatRequest, (∀ msg ∈ msgs, (requests.toString msg).length ≤ 65535) →
        ∀ chunks, chunks.flatten = encodeAll (ClientChatCodec.encode requests) msgs →
          (ChatCodec.decoder requests).feed [] chunks = (msgs.map .ok, [], [])) ∧
      ∀ msgs : List ChatResponse, (∀ msg ∈ msgs, (responses.toString msg).length ≤ 65535) →
        ∀ chunks, chunks.flatten = encodeAll (ChatCodec.encode responses) msgs →
          (ClientChatCodec.decoder responses).feed [] chunks = (msgs.map .ok, [], []) :=
  ⟨decoder_reassembles requests.fromSlice, decoder_reassembles responses.fromSlice,
    feed_encodeAll requestsRoundTrip, feed_encodeAll responsesRoundTrip⟩

/-- Two requests that arrive byte by byte. -/
theorem stream_reassembly_byte_by_byte :
    (ChatCodec.decoder compactRequests).feed []
      ((encodeAll (ClientChatCodec.encode compactRequests) [.list, .ping]).map fun byte => [byte]) =
        ([.ok .list, .ok .ping], [], []) :=
  (stream_reassembly compactRequests compactResponses compactRequests_roundTrips
    compactResponses_roundTrips).2.2.1 [.list, .ping] (by decide) _ (List.flatMap_singleton' _)

/-! ## The encoders -/

/--
Either nothing is appended and an error is returned, or one frame is appended
which the peer decodes to the message, whatever bytes follow it.
-/
def EncodeSound (encode : α → List UInt8 → Except ε Unit × List UInt8)
    (decode : List UInt8 → Except ε (Option α) × List UInt8) (msg : α) (dst : List UInt8) : Prop :=
  (∃ failure, encode msg dst = (.error failure, dst)) ∨
    ∃ appended, encode msg dst = (.ok (), dst ++ appended) ∧
      ∀ following, decode (appended ++ following) = (.ok (some msg), following)

/-- A message that fits is framed so that the peer reads it back. -/
theorem encodeSound_of_fits {json : Json ε α} (roundTrips : json.RoundTrips) {msg : α}
    (fits : (json.toString msg).length ≤ 65535) (dst : List UInt8) :
    EncodeSound (fun msg dst => LengthPrefixed.encode (json.toString msg) dst)
      (LengthPrefixed.decode json.fromSlice) msg dst := by
  refine Or.inr ⟨frame (json.toString msg), encode_eq (json.toString msg) dst, ?_⟩
  intro following
  rw [decode_frame json.fromSlice fits following, roundTrips msg]
  rfl

/-- The header of a longer message announces another size, so the peer loses the frame. -/
theorem not_encodeSound_of_long {json : Json ε α} {msg : α}
    (long : 65535 < (json.toString msg).length) (dst : List UInt8) :
    ¬ EncodeSound (fun msg dst => LengthPrefixed.encode (json.toString msg) dst)
      (LengthPrefixed.decode json.fromSlice) msg dst := by
  rintro (⟨failure, refused⟩ | ⟨appended, written, read⟩)
  · cases (encode_eq (json.toString msg) dst).symm.trans refused
  · have output := (Prod.mk.inj ((encode_eq (json.toString msg) dst).symm.trans written)).2
    have same := List.append_cancel_left output
    have decided : (Except.ok (some msg) : Except ε (Option α)) ≠ .ok none := by simp
    rw [← same] at read
    exact decode_frame_of_long json.fromSlice long (.ok (some msg)) decided (read [])

/--
Encoder soundness.  For both encoders a message is appended as one frame that
the peer reads back exactly if its JSON text is at most 65535 bytes long.
-/
theorem encodeSound_iff (requests : Json ε ChatRequest) (responses : Json ε ChatResponse)
    (requestsRoundTrip : requests.RoundTrips) (responsesRoundTrip : responses.RoundTrips) :
    (∀ msg dst, EncodeSound (ClientChatCodec.encode requests) (ChatCodec.decode requests) msg dst ↔
      (requests.toString msg).length ≤ 65535) ∧
    ∀ msg dst, EncodeSound (ChatCodec.encode responses) (ClientChatCodec.decode responses) msg dst ↔
      (responses.toString msg).length ≤ 65535 := by
  constructor
  · intro msg dst
    constructor
    · intro sound
      by_contra long
      exact not_encodeSound_of_long (Nat.not_le.mp long) dst sound
    · exact fun fits => encodeSound_of_fits requestsRoundTrip fits dst
  · intro msg dst
    constructor
    · intro sound
      by_contra long
      exact not_encodeSound_of_long (Nat.not_le.mp long) dst sound
    · exact fun fits => encodeSound_of_fits responsesRoundTrip fits dst

/-- A list request is appended as one frame behind earlier output. -/
theorem encodeSound_list_request :
    EncodeSound (ClientChatCodec.encode compactRequests) (ChatCodec.decode compactRequests)
      .list [7] :=
  ((encodeSound_iff compactRequests compactResponses compactRequests_roundTrips
    compactResponses_roundTrips).1 .list [7]).mpr (by decide)

def longText : String := String.ofList (List.replicate 65536 'a')

theorem length_longText : 65536 ≤ (utf8 longText).length := by
  have length := length_utf8_ofList (List.replicate 65536 'a')
  rw [List.length_replicate] at length
  exact length

/-- A long chat line is encoded without an error into something that is no frame of it. -/
theorem long_message_not_sound :
    ¬ EncodeSound (ClientChatCodec.encode compactRequests) (ChatCodec.decode compactRequests)
      (.message longText) [] := by
  apply not_encodeSound_of_long
  have text := Compact.length_le_tagged "Message" longText
  have long := length_longText
  exact Nat.lt_of_lt_of_le (by omega) text

end RustDemo.Chat
