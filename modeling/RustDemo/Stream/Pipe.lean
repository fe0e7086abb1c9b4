import RustDemo.Stream.Incremental

/-!
# Pipes

A byte stream between an encoder and a decoder: what was written and has not
arrived, and what has arrived and was not decoded.  As long as every message
written can be read back, the stream is the encoding of the messages that are
still to be read, whatever pieces it arrives in.
-/

namespace RustDemo.Stream

/-- A decoder and the encoder of its peer; a message that fits is read back in front of any input. -/
structure Codec (β ε α : Type) where
  decoder : Decoder β ε α
  encode : α → List β
  Fits : α → Prop
  reads : ∀ msg, Fits msg → ∀ rest, decoder.decode (encode msg ++ rest) = (.ok (some msg), rest)

/-- The buffer of the reader, and what is in flight to it. -/
structure Pipe (β : Type) where
  buffer : List β
  flight : List β

namespace Pipe

variable {β ε α : Type}

def empty : Pipe β := ⟨[], []⟩

/-- The next `n` elements arrive, or as many as there are. -/
def arrive (pipe : Pipe β) (n : Nat) : Pipe β :=
  ⟨pipe.buffer ++ pipe.flight.take n, pipe.flight.drop n⟩

/-- The whole stream is the encoding of these messages, all of which fit. -/
structure Carries (codec : Codec β ε α) (pipe : Pipe β) (msgs : List α) : Prop where
  fits : ∀ msg ∈ msgs, codec.Fits msg
  stream : pipe.buffer ++ pipe.flight = msgs.flatMap codec.encode

variable {codec : Codec β ε α} {pipe : Pipe β} {msgs : List α}

theorem carries_empty : (empty : Pipe β).Carries codec [] := ⟨nofun, rfl⟩

theorem Carries.write (carries : pipe.Carries codec msgs) {more : List α}
    (fits : ∀ msg ∈ more, codec.Fits msg) {flight : List β}
    (written : flight = pipe.flight ++ more.flatMap codec.encode) :
    Carries codec { pipe with flight := flight } (msgs ++ more) where
  fits msg among := (List.mem_append.mp among).elim (carries.fits msg) (fits msg)
  stream := by
    subst written
    rw [← List.append_assoc, carries.stream, List.flatMap_append]

theorem Carries.arrive (carries : pipe.Carries codec msgs) (n : Nat) :
    (pipe.arrive n).Carries codec msgs where
  fits := carries.fits
  stream := by
    rw [← carries.stream, Pipe.arrive, List.append_assoc, List.take_append_drop]

/-- Whatever the decoder decides on is the first message, and what remains carries the others. -/
theorem Carries.decided (carries : pipe.Carries codec msgs) {result : Except ε (Option α)}
    {rest : List β} (decoded : codec.decoder.decode pipe.buffer = (result, rest))
    (decided : result ≠ .ok none) :
    ∃ msg later, msgs = msg :: later ∧ result = .ok (some msg) ∧
      Carries codec { pipe with buffer := rest } later := by
  have whole := codec.decoder.stable pipe.buffer result rest pipe.flight decoded decided
  rw [carries.stream] at whole
  cases msgs with
  | nil =>
      have waiting : codec.decoder.Waiting [] := Decoder.waiting_nil
      exact absurd (Prod.mk.inj (waiting.symm.trans whole)).1.symm decided
  | cons msg later =>
      have first := codec.reads msg (carries.fits msg List.mem_cons_self) (later.flatMap codec.encode)
      obtain ⟨found, remains⟩ := Prod.mk.inj (first.symm.trans whole)
      refine ⟨msg, later, rfl, found.symm, fun other among => ?_, remains.symm⟩
      exact carries.fits other (List.mem_cons_of_mem msg among)

theorem Carries.no_error (carries : pipe.Carries codec msgs) (failure : ε) :
    (codec.decoder.decode pipe.buffer).1 ≠ .error failure := by
  intro failed
  obtain ⟨msg, later, -, impossible, -⟩ :=
    carries.decided (Prod.ext failed rfl : _ = (Except.error failure, _)) nofun
  cases impossible

theorem Carries.eq_nil_of_waiting (carries : pipe.Carries codec msgs) (arrived : pipe.flight = [])
    (waiting : codec.decoder.Waiting pipe.buffer) : msgs = [] := by
  have stream := carries.stream
  rw [arrived, List.append_nil] at stream
  cases msgs with
  | nil => rfl
  | cons msg later =>
      have first := codec.reads msg (carries.fits msg List.mem_cons_self) (later.flatMap codec.encode)
      rw [Decoder.Waiting, stream] at waiting
      cases first.symm.trans waiting

end Pipe

end RustDemo.Stream
