import RustDemo.WsChat.Handler

/-!
# The backlog

`on_open` cuts the log into chunks of 50 from its beginning and takes the last
two, of which the last may be short.  So it looks at the whole of a log of at
most 50 entries, and at 51 to 100 entries of a longer one.
-/

namespace RustDemo.WsChat

section Chunks

variable {α : Type}

/-- The items in chunks that are all full but the last, which has something in it. -/
inductive Chunked (size : Nat) : List α → List (List α) → Prop where
  | nil : Chunked size [] []
  | last {chunk : List α} (nonempty : chunk ≠ []) (fits : chunk.length ≤ size) :
      Chunked size chunk [chunk]
  | more {chunk items next : List α} {later : List (List α)} (full : chunk.length = size)
      (rest : Chunked size items (next :: later)) :
      Chunked size (chunk ++ items) (chunk :: next :: later)

theorem chunked_fill {size : Nat} (chunk items : List α) (room : chunk.length < size) :
    Chunked size (chunk ++ items) (chunks.fill size chunk items) := by
  induction items generalizing chunk with
  | nil =>
      rw [chunks.fill, List.append_nil]
      cases chunk with
      | nil => exact .nil
      | cons first rest => exact .last (List.cons_ne_nil _ _) (Nat.le_of_lt room)
  | cons item items ih =>
      rw [chunks.fill, List.append_cons]
      split
      · rename_i full
        have filled : (chunk ++ [item]).length = size := by
          rw [List.length_append]
          exact full
        have later := ih [] (by rw [List.length_nil]; omega)
        rw [List.nil_append] at later
        cases held : chunks.fill size [] items with
        | nil =>
            rw [held] at later
            cases later
            rw [List.append_nil]
            exact .last (List.append_ne_nil_of_right_ne_nil _ (List.cons_ne_nil _ _))
              (Nat.le_of_eq filled)
        | cons next more =>
            rw [held] at later
            exact .more filled later
      · rename_i notFull
        apply ih
        rw [List.length_append, List.length_singleton]
        omega

theorem chunked_chunks {size : Nat} (positive : 0 < size) (items : List α) :
    Chunked size items (chunks size items) :=
  chunked_fill [] items positive

inductive LastTwo (size : Nat) (items : List α) : List (List α) → Prop where
  | none (empty : items = []) : LastTwo size items []
  | one {chunk : List α} (whole : items = chunk) (nonempty : chunk ≠ []) (fits : chunk.length ≤ size) :
      LastTwo size items [chunk]
  | two {last full older : List α} {others : List (List α)}
      (glued : items = older ++ (full ++ last)) (isFull : full.length = size)
      (nonempty : last ≠ []) (fits : last.length ≤ size) :
      LastTwo size items (last :: full :: others)

theorem Chunked.lastTwo {size : Nat} {items : List α} {pieces : List (List α)}
    (chunked : Chunked size items pieces) : LastTwo size items pieces.reverse := by
  induction chunked with
  | nil => exact .none rfl
  | last nonempty fits => exact .one rfl nonempty fits
  | @more chunk items next later full rest ih =>
      rw [List.reverse_cons]
      cases held : (next :: later).reverse with
      | nil => exact absurd (List.reverse_eq_nil_iff.mp held) (List.cons_ne_nil _ _)
      | cons final others =>
          rw [held] at ih
          cases ih with
          | one whole nonempty fits =>
              subst whole
              have glued : chunk ++ items = [] ++ (chunk ++ items) := rfl
              exact .two glued full nonempty fits
          | @two _ second older others glued isFull nonempty fits =>
              rw [glued, ← List.append_assoc]
              exact .two rfl isFull nonempty fits

end Chunks

/-- Sent less than ten minutes ago. -/
def LogMessage.young (now : Int) (entry : LogMessage) : Bool :=
  match entry.sent with
  | some sent => now - sent * nanosPerSecond < 10 * 60 * nanosPerSecond
  | none => false

/-- The time between the entry and now is one that a `Duration` can have. -/
def LogMessage.Near (now : Int) (entry : LogMessage) : Prop :=
  ∀ sent, entry.sent = some sent →
    -longestSeconds ≤ now / nanosPerSecond - sent ∧ now / nanosPerSecond - sent ≤ longestSeconds

def LogMessage.replayed (crates : Crates) (entry : LogMessage) : Output :=
  .send (crates.debug (frame "/message" entry.toMessage.toValue))

/-- Within the bounds the age is the time that has passed. -/
theorem age?_eq (now sent : Int) :
    age? now sent = if -longestSeconds ≤ now / nanosPerSecond - sent ∧
      now / nanosPerSecond - sent ≤ longestSeconds then some (now - sent * nanosPerSecond) else none := by
  have split := Int.mul_ediv_add_emod now nanosPerSecond
  have passed : (now / nanosPerSecond - sent) * nanosPerSecond + now % nanosPerSecond =
      now - sent * nanosPerSecond := by
    rw [Int.sub_mul, Int.mul_comm (now / nanosPerSecond)]
    omega
  rw [age?, passed]

@[simp] theorem Replay.andThen_panics (first second : Replay) :
    (first.andThen second).panics = (first.panics || second.panics) := by
  rw [andThen]
  cases panicked : first.panics with
  | true => simp [panicked]
  | false => simp

theorem Replay.andThen_assoc (first second third : Replay) :
    (first.andThen second).andThen third = first.andThen (second.andThen third) := by
  obtain ⟨sent, panicked | panicked⟩ := first
  · obtain ⟨later, stopped | stopped⟩ := second
    · simp [andThen]
    · simp [andThen]
  · simp [andThen]

namespace ChatHandler

variable {crates : Crates}

theorem replay_cons (now : Int) (entry : LogMessage) (entries : List LogMessage) :
    (¬ entry.Near now ∧ replay crates now (entry :: entries) = ⟨[], true⟩) ∨
      (entry.Near now ∧ entry.young now = true ∧ replay crates now (entry :: entries) =
        Replay.andThen ⟨[entry.replayed crates], false⟩ (replay crates now entries)) ∨
      (entry.Near now ∧ ¬ entry.young now = true ∧
        replay crates now (entry :: entries) = replay crates now entries) := by
  obtain ⟨nick, sent | sent, message⟩ := entry
  · exact Or.inr (Or.inr ⟨nofun, nofun, rfl⟩)
  · rw [replay]
    dsimp only
    rw [age?_eq]
    split
    · rename_i near inside
      split at inside
      · rename_i bounds
        cases inside
        have isNear : LogMessage.Near now ⟨nick, some sent, message⟩ := by
          rintro _ ⟨⟩
          exact bounds
        split
        · rename_i recent
          exact Or.inr (Or.inl ⟨isNear, decide_eq_true recent, rfl⟩)
        · rename_i old
          exact Or.inr (Or.inr ⟨isNear, fun young => old (of_decide_eq_true young), rfl⟩)
      · cases inside
    · rename_i outside
      split at outside
      · cases outside
      · rename_i bounds
        exact Or.inl ⟨fun near => bounds (near sent rfl), rfl⟩

theorem replay_append (now : Int) (first second : List LogMessage) :
    replay crates now (first ++ second) =
      (replay crates now first).andThen (replay crates now second) := by
  induction first with
  | nil => rfl
  | cons entry entries ih =>
      rw [List.cons_append]
      rcases @replay_cons crates now entry (entries ++ second) with
        ⟨far, whole⟩ | ⟨near, young, whole⟩ | ⟨near, old, whole⟩
      · rcases @replay_cons crates now entry entries with
          ⟨-, part⟩ | ⟨near, -⟩ | ⟨near, -⟩
        · rw [whole, part]
          rfl
        · exact absurd near far
        · exact absurd near far
      · rcases @replay_cons crates now entry entries with
          ⟨far, -⟩ | ⟨-, -, part⟩ | ⟨-, old, -⟩
        · exact absurd near far
        · rw [whole, part, ih, Replay.andThen_assoc]
        · exact absurd young old
      · rcases @replay_cons crates now entry entries with
          ⟨far, -⟩ | ⟨-, young, -⟩ | ⟨-, -, part⟩
        · exact absurd near far
        · exact absurd young old
        · rw [whole, part, ih]

/-- A replay panics exactly if one of its entries is too far away. -/
theorem replay_panics_iff (now : Int) (entries : List LogMessage) :
    (replay crates now entries).panics = false ↔ ∀ entry ∈ entries, entry.Near now := by
  induction entries with
  | nil => exact iff_of_true rfl nofun
  | cons entry entries ih =>
      rw [List.forall_mem_cons]
      rcases @replay_cons crates now entry entries with
        ⟨far, whole⟩ | ⟨near, -, whole⟩ | ⟨near, -, whole⟩
      · rw [whole]
        exact iff_of_false nofun fun all => far all.1
      · rw [whole, Replay.andThen_panics, Bool.false_or, ih]
        exact (and_iff_right near).symm
      · rw [whole, ih]
        exact (and_iff_right near).symm

/-- The frames are the first for the young entries, and all of them unless it panics. -/
theorem replay_outputs (now : Int) (entries : List LogMessage) :
    (replay crates now entries).outputs <+:
        (entries.filter (·.young now)).map (·.replayed crates) ∧
      ((replay crates now entries).panics = false → (replay crates now entries).outputs =
        (entries.filter (·.young now)).map (·.replayed crates)) := by
  induction entries with
  | nil => exact ⟨List.prefix_rfl, fun _ => rfl⟩
  | cons entry entries ih =>
      rcases @replay_cons crates now entry entries with
        ⟨far, whole⟩ | ⟨near, young, whole⟩ | ⟨near, old, whole⟩
      · rw [whole]
        exact ⟨List.nil_prefix, nofun⟩
      · rw [whole, List.filter_cons_of_pos young, List.map_cons]
        refine ⟨List.cons_prefix_cons.mpr ⟨rfl, ih.1⟩, fun completes => ?_⟩
        rw [Replay.andThen_panics, Bool.false_or] at completes
        exact congrArg (_ :: ·) (ih.2 completes)
      · rw [whole, List.filter_cons_of_neg old]
        exact ih

/-! ## `on_open` -/

/-- The entries that `on_open` looks at. -/
def lookedAt (log : List LogMessage) : List LogMessage :=
  ((chunks 50 log).reverse.take 2).reverse.flatten

theorem onOpen_eq (shared : Shared) (now : Int) :
    onOpen crates shared now = replay crates now (lookedAt shared.messageLog) := by
  unfold onOpen lookedAt
  cases (chunks 50 shared.messageLog).reverse with
  | nil => rfl
  | cons last rest =>
      cases rest with
      | nil => exact congrArg (replay crates now) (List.append_nil last).symm
      | cons before others =>
          refine (replay_append now before last).symm.trans (congrArg (replay crates now) ?_)
          exact congrArg (before ++ ·) (List.append_nil last).symm

theorem exists_lookedAt (log : List LogMessage) :
    ∃ k, (log.length ≤ 50 → k = log.length) ∧ (50 < log.length → 51 ≤ k ∧ k ≤ 100) ∧
      lookedAt log = log.drop (log.length - k) := by
  have lastTwo := (chunked_chunks (by decide : 0 < 50) log).lastTwo
  unfold lookedAt
  generalize (chunks 50 log).reverse = pieces at lastTwo
  cases lastTwo with
  | none empty =>
      subst empty
      exact ⟨0, fun _ => rfl, nofun, rfl⟩
  | @one chunk whole nonempty fits =>
      subst whole
      refine ⟨_, fun _ => rfl, fun long => by omega, ?_⟩
      rw [Nat.sub_self, List.drop_zero]
      exact List.append_nil _
  | @two last full older others glued isFull nonempty fits =>
      have positive := List.length_pos_iff.mpr nonempty
      have total := congrArg List.length glued
      rw [List.length_append, List.length_append] at total
      refine ⟨full.length + last.length, fun short => by omega, fun _ => by omega, ?_⟩
      have start : log.length - (full.length + last.length) = older.length := by omega
      rw [start, glued, List.drop_left]
      exact congrArg (full ++ ·) (List.append_nil last)

/-- The frames for the young ones among the last `k` entries of the log, in their order. -/
def lastYoung (crates : Crates) (log : List LogMessage) (now : Int) (k : Nat) : List Output :=
  ((log.drop (log.length - k)).filter (·.young now)).map (·.replayed crates)

theorem onOpen_outputs {shared : Shared} {now : Int} {k : Nat}
    (completes : (onOpen crates shared now).panics = false)
    (looked : lookedAt shared.messageLog =
      shared.messageLog.drop (shared.messageLog.length - k)) :
    (onOpen crates shared now).outputs = lastYoung crates shared.messageLog now k := by
  rw [onOpen_eq] at completes ⊢
  rw [(replay_outputs now _).2 completes, looked]
  rfl

theorem lastYoung_suffix (log : List LogMessage) (now : Int) {j k : Nat} (le : j ≤ k) :
    lastYoung crates log now j <:+ lastYoung crates log now k := by
  have further : log.drop (log.length - j) <:+ log.drop (log.length - k) := by
    have start : log.length - j = log.length - k + (log.length - j - (log.length - k)) := by omega
    rw [start, ← List.drop_drop]
    exact List.drop_suffix _ _
  exact (further.filter _).map _

/--
The young entries among the last `k` are replayed, in order and once each, and
`k` is large enough for the last 51 entries.  It panics exactly if one of the
last `k` entries is further away than a `Duration` can tell.
-/
theorem onOpen_replays (shared : Shared) (now : Int) :
    ∃ k, (shared.messageLog.length ≤ 50 → k = shared.messageLog.length) ∧
      (50 < shared.messageLog.length → 51 ≤ k ∧ k ≤ 100) ∧
      ((onOpen crates shared now).panics = false ↔
        ∀ entry ∈ shared.messageLog.drop (shared.messageLog.length - k), entry.Near now) ∧
      ((onOpen crates shared now).panics = false →
        (onOpen crates shared now).outputs = lastYoung crates shared.messageLog now k ∧
        lastYoung crates shared.messageLog now 51 <:+ (onOpen crates shared now).outputs ∧
        (onOpen crates shared now).outputs.Sublist
          (shared.messageLog.map (·.replayed crates))) := by
  obtain ⟨k, short, long, looked⟩ := exists_lookedAt shared.messageLog
  refine ⟨k, short, long, ?_, fun completes => ?_⟩
  · rw [onOpen_eq, replay_panics_iff, looked]
  · rw [onOpen_outputs completes looked]
    refine ⟨rfl, ?_, (List.filter_sublist.trans (List.drop_sublist _ _)).map _⟩
    by_cases isLong : 50 < shared.messageLog.length
    · exact lastYoung_suffix _ now (long isLong).1
    · -- the whole log is looked at either way
      have whole := short (by omega)
      have same : shared.messageLog.length - 51 = shared.messageLog.length - k := by omega
      rw [lastYoung, same]
      exact List.suffix_refl _

/-- An entry of a log that was loaded lies in the distant future, so it is young, but not near. -/
theorem onOpen_panics_far_entry :
    ¬ ∀ (crates : Crates) (shared : Shared) (now : Int),
      ∃ k, (shared.messageLog.length ≤ 50 → k = shared.messageLog.length) ∧
        (50 < shared.messageLog.length → 51 ≤ k ∧ k ≤ 100) ∧
        (onOpen crates shared now).outputs = lastYoung crates shared.messageLog now k := by
  intro replays
  obtain ⟨k, short, -, outputs⟩ := replays ⟨fun _ => none, fun _ => "", fun _ => ""⟩
    ⟨[⟨"bob", some 1800000000000000000, "yo"⟩], ∅⟩ 1700000000000000000
  cases short (by decide)
  cases outputs

end ChatHandler

end RustDemo.WsChat
