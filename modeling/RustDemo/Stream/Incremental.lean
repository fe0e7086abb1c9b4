import Mathlib.Data.List.Basic

/-!
# Incremental decoders

A decoder looks at the buffered input and either waits for more, or takes
something off the front: an item or an error.  If a decision once taken is not
changed by further input, then feeding a stream in any number of pieces gives
the results of decoding it in one piece.
-/

namespace RustDemo.Stream

/--
A decode step with its laws: waiting leaves the buffer alone, a decision takes
at least one element, and input behind a decided prefix is left for later.
-/
structure Decoder (β ε α : Type) where
  decode : List β → Except ε (Option α) × List β
  pending : ∀ buffer rest, decode buffer = (.ok none, rest) → rest = buffer
  shrinks : ∀ buffer result rest, decode buffer = (result, rest) → result ≠ .ok none →
    rest.length < buffer.length
  stable : ∀ buffer result rest more, decode buffer = (result, rest) → result ≠ .ok none →
    decode (buffer ++ more) = (result, rest ++ more)

/-- Whether an error is among the results; it ends the reading of a stream. -/
def failed {ε α : Type} (results : List (Except ε α)) : Bool :=
  results.any fun result => !result.isOk

theorem failed_map_ok {ε α : Type} (items : List α) :
    failed (items.map .ok : List (Except ε α)) = false := by
  induction items with
  | nil => rfl
  | cons item items ih => exact ih

namespace Decoder

variable {β ε α : Type} (decoder : Decoder β ε α)

/-- Decode until the decoder waits or fails; the results and the remaining buffer. -/
def drain (buffer : List β) : List (Except ε α) × List β :=
  match decoded : decoder.decode buffer with
  | (.ok none, rest) => ([], rest)
  | (.ok (some item), rest) =>
      have : rest.length < buffer.length := decoder.shrinks buffer _ rest decoded nofun
      (.ok item :: (drain rest).1, (drain rest).2)
  | (.error failure, rest) => ([.error failure], rest)
termination_by buffer.length

/--
Append chunk after chunk to the buffer and drain it each time; after an error
the remaining chunks, the last component, stay unread.
-/
def feed (buffer : List β) : List (List β) → List (Except ε α) × List β × List (List β)
  | [] => ([], buffer, [])
  | chunk :: chunks =>
      let drained := decoder.drain (buffer ++ chunk)
      if failed drained.1 then (drained.1, drained.2, chunks)
      else
        let later := feed drained.2 chunks
        (drained.1 ++ later.1, later.2)

/-- The decoder needs more input than the buffer holds. -/
def Waiting (buffer : List β) : Prop := decoder.decode buffer = (.ok none, buffer)

section Drain

variable {decoder}

theorem drain_of_waiting {buffer : List β} (waiting : decoder.Waiting buffer) :
    decoder.drain buffer = ([], buffer) := by
  rw [drain]
  split
  · rename_i rest decoded
    rw [decoder.pending buffer rest decoded]
  · rename_i decoded
    cases waiting.symm.trans decoded
  · rename_i decoded
    cases waiting.symm.trans decoded

theorem drain_of_item {buffer rest : List β} {item : α}
    (decoded : decoder.decode buffer = (.ok (some item), rest)) :
    decoder.drain buffer = (.ok item :: (decoder.drain rest).1, (decoder.drain rest).2) := by
  rw [drain]
  split
  · rename_i other
    cases decoded.symm.trans other
  · rename_i other
    cases decoded.symm.trans other
    rfl
  · rename_i other
    cases decoded.symm.trans other

theorem drain_of_error {buffer rest : List β} {failure : ε}
    (decoded : decoder.decode buffer = (.error failure, rest)) :
    decoder.drain buffer = ([.error failure], rest) := by
  rw [drain]
  split
  · rename_i other
    cases decoded.symm.trans other
  · rename_i other
    cases decoded.symm.trans other
  · rename_i other
    cases decoded.symm.trans other
    rfl

theorem waiting_nil : decoder.Waiting [] := by
  unfold Waiting
  cases decoded : decoder.decode [] with
  | mk result rest =>
      by_cases none : result = .ok none
      · rw [none] at decoded ⊢
        rw [decoder.pending [] rest decoded]
      · have shorter := decoder.shrinks [] result rest decoded none
        exact absurd shorter (Nat.not_lt_zero _)

/-- The three ways one decode step can end. -/
theorem decode_cases (buffer : List β) :
    decoder.Waiting buffer ∨
      (∃ item rest, decoder.decode buffer = (.ok (some item), rest)) ∨
      ∃ failure rest, decoder.decode buffer = (.error failure, rest) := by
  unfold Waiting
  cases decoded : decoder.decode buffer with
  | mk result rest =>
      cases result with
      | error failure => exact Or.inr (Or.inr ⟨failure, rest, rfl⟩)
      | ok item =>
          cases item with
          | none =>
              rw [decoder.pending buffer rest decoded]
              exact Or.inl rfl
          | some item => exact Or.inr (Or.inl ⟨item, rest, rfl⟩)

/--
Induction along the draining of a buffer: it waits, takes an item and goes on
with a shorter buffer, or fails.
-/
theorem drain_induction {motive : List β → Prop}
    (waiting : ∀ buffer, decoder.Waiting buffer → motive buffer)
    (item : ∀ buffer item rest, decoder.decode buffer = (.ok (some item), rest) →
      motive rest → motive buffer)
    (error : ∀ buffer failure rest, decoder.decode buffer = (.error failure, rest) →
      motive buffer)
    (buffer : List β) : motive buffer := by
  induction buffer using WellFounded.induction (measure List.length).wf with
  | h buffer ih =>
      rcases decoder.decode_cases buffer with idle | ⟨found, rest, decoded⟩ | ⟨failure, rest, decoded⟩
      · exact waiting buffer idle
      · exact item buffer found rest decoded (ih rest (decoder.shrinks buffer _ rest decoded nofun))
      · exact error buffer failure rest decoded

theorem waiting_of_drain (buffer : List β) (clean : failed (decoder.drain buffer).1 = false) :
    decoder.Waiting (decoder.drain buffer).2 := by
  induction buffer using decoder.drain_induction with
  | waiting buffer idle =>
      rw [drain_of_waiting idle]
      exact idle
  | item buffer item rest decoded ih =>
      rw [drain_of_item decoded] at clean ⊢
      exact ih clean
  | error buffer failure rest decoded =>
      rw [drain_of_error decoded] at clean
      cases clean

theorem drain_append (buffer more : List β) (clean : failed (decoder.drain buffer).1 = false) :
    decoder.drain (buffer ++ more) =
      ((decoder.drain buffer).1 ++ (decoder.drain ((decoder.drain buffer).2 ++ more)).1,
        (decoder.drain ((decoder.drain buffer).2 ++ more)).2) := by
  induction buffer using decoder.drain_induction with
  | waiting buffer idle =>
      rw [drain_of_waiting idle]
      rfl
  | item buffer item rest decoded ih =>
      have extended := decoder.stable buffer _ rest more decoded nofun
      rw [drain_of_item decoded] at clean ⊢
      rw [drain_of_item extended, ih clean]
      rfl
  | error buffer failure rest decoded =>
      rw [drain_of_error decoded] at clean
      cases clean

theorem drain_append_of_failed (buffer more : List β)
    (broken : failed (decoder.drain buffer).1 = true) :
    decoder.drain (buffer ++ more) =
      ((decoder.drain buffer).1, (decoder.drain buffer).2 ++ more) := by
  induction buffer using decoder.drain_induction with
  | waiting buffer idle =>
      rw [drain_of_waiting idle] at broken
      cases broken
  | item buffer item rest decoded ih =>
      have extended := decoder.stable buffer _ rest more decoded nofun
      rw [drain_of_item decoded] at broken ⊢
      rw [drain_of_item extended, ih broken]
  | error buffer failure rest decoded =>
      have extended := decoder.stable buffer _ rest more decoded nofun
      rw [drain_of_error decoded, drain_of_error extended]

/--
Chunk independence.  Feeding a waiting decoder chunk by chunk gives the results
of draining the whole input at once; what that leaves behind is the final
buffer followed by the unread chunks.
-/
theorem drain_eq_feed (buffer : List β) (chunks : List (List β))
    (waiting : decoder.Waiting buffer) :
    decoder.drain (buffer ++ chunks.flatten) =
      ((decoder.feed buffer chunks).1,
        (decoder.feed buffer chunks).2.1 ++ (decoder.feed buffer chunks).2.2.flatten) := by
  induction chunks generalizing buffer with
  | nil =>
      rw [List.flatten_nil, List.append_nil, drain_of_waiting waiting]
      simp [feed]
  | cons chunk chunks ih =>
      rw [List.flatten_cons, ← List.append_assoc]
      cases broken : failed (decoder.drain (buffer ++ chunk)).1 with
      | true =>
          rw [drain_append_of_failed _ _ broken]
          simp [feed, broken]
      | false =>
          rw [drain_append _ _ broken, ih _ (waiting_of_drain _ broken)]
          simp [feed, broken]

theorem feed_unread (buffer : List β) (chunks : List (List β))
    (clean : failed (decoder.feed buffer chunks).1 = false) :
    (decoder.feed buffer chunks).2.2 = [] := by
  induction chunks generalizing buffer with
  | nil => rfl
  | cons chunk chunks ih =>
      cases broken : failed (decoder.drain (buffer ++ chunk)).1 with
      | true =>
          simp only [feed, broken, ↓reduceIte] at clean
          cases clean
      | false =>
          simp only [feed, broken, Bool.false_eq_true, ↓reduceIte] at clean ⊢
          apply ih
          unfold failed at clean ⊢
          rw [List.any_append, Bool.or_eq_false_iff] at clean
          exact clean.2

end Drain

end Decoder

/-! ## Parsing what was cut out of a stream -/

section ParseAll

variable {β ε α : Type} (parse : List β → Except ε α)

def parseAll : List (List β) → List (Except ε α)
  | [] => []
  | piece :: pieces =>
      match parse piece with
      | .ok item => .ok item :: parseAll pieces
      | .error failure => [.error failure]

theorem length_parseAll {pieces : List (List β)} (clean : failed (parseAll parse pieces) = false) :
    (parseAll parse pieces).length = pieces.length := by
  induction pieces with
  | nil => rfl
  | cons piece pieces ih =>
      rw [parseAll] at clean ⊢
      cases parsed : parse piece with
      | ok item =>
          rw [parsed] at clean
          exact congrArg Nat.succ (ih clean)
      | error failure =>
          rw [parsed] at clean
          cases clean

theorem parseAll_map_ok {pieces : List (List β)} {items : List α}
    (parsed : pieces.map parse = items.map .ok) : parseAll parse pieces = items.map .ok := by
  induction pieces generalizing items with
  | nil =>
      cases items with
      | nil => rfl
      | cons item items => cases parsed
  | cons piece pieces ih =>
      cases items with
      | nil => cases parsed
      | cons item items =>
          rw [List.map_cons, List.map_cons, List.cons.injEq] at parsed
          rw [parseAll, parsed.1, List.map_cons, ← ih parsed.2]

end ParseAll

end RustDemo.Stream
