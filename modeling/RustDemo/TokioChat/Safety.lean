import RustDemo.TokioChat.Registration

/-!
# No panic

A reader unwraps the entry of its own address, and every send.  While no two
open connections share an address, the entry of each one is its own, and what
stands in the map has its receiver: closing drops the receiver and takes the
entry out in one round.
-/

namespace RustDemo.TokioChat

open RustDemo.ChatNew RustDemo.Collections RustDemo.Text RustDemo.Transition

variable {κ σ ε : Type} [DecidableEq κ] [DecidableEq σ] {addr : κ → σ} {display : σ → String}

theorem Task.Live.exists_unboundedSend {task : Task ε} (live : task.Live) (msg : String) :
    ∃ next, task.unboundedSend msg = some next ∧ next.Live := by
  obtain ⟨connection, rfl⟩ := live
  exact ⟨_, rfl, _, rfl⟩

namespace Chat

/-- What a reader relies on when it handles a line. -/
structure Sound (addr : κ → σ) (chat : Chat κ σ ε) : Prop where
  own : ∀ k, chat.Live k → chat.connections.lookup (addr k) = some k
  received : ∀ address tx, chat.connections.lookup address = some tx → chat.Live tx

omit [DecidableEq κ] in
theorem Sound.congr {chat next : Chat κ σ ε} (sound : chat.Sound addr)
    (map : next.connections = chat.connections) (lives : ∀ j, next.Live j ↔ chat.Live j) :
    next.Sound addr := by
  constructor
  · intro k live
    rw [map]
    exact sound.own k ((lives k).mp live)
  · intro address tx listed
    rw [map] at listed
    exact (lives tx).mpr (sound.received address tx listed)

variable (display) in
theorem Sound.exists_handle {chat : Chat κ σ ε} (sound : chat.Sound addr) {k : κ}
    (live : chat.Live k) (message : Option String) :
    ∃ next, chat.handle addr display k message = some next := by
  cases message with
  | some msg =>
      have receivers : ∀ tx ∈ others (addr k) chat.connections.entries, (chat.tasks tx).Live := by
        intro tx among
        obtain ⟨address, _, entry⟩ := mem_others.mp among
        exact sound.received address tx ((HashMap.mem_entries_iff _ _ _).mp entry)
      obtain ⟨after, sent⟩ := exists_sendAll
        (fun task live => Task.Live.exists_unboundedSend live (display (addr k) ++ ": " ++ msg))
        receivers
      rw [← sendToOthers_eq_sendAll] at sent
      rw [handle, sent]
      exact ⟨_, rfl⟩
  | none =>
      obtain ⟨next, sent, _⟩ :=
        Task.Live.exists_unboundedSend live "You didn't send valid UTF-8."
      simp only [handle, sound.own k live, sent]
      exact ⟨_, rfl⟩

variable (display) in
theorem Sound.exists_read {chat : Chat κ σ ε} (sound : chat.Sound addr) {k : κ}
    {connection : Connection ε} (live : chat.tasks k = .connected connection) :
    ∃ next, chat.read addr display k connection = some next := by
  unfold read
  split
  · exact ⟨_, rfl⟩
  · exact ⟨_, rfl⟩
  · rename_i vec after _
    split
    · exact ⟨_, rfl⟩
    · have still : (chat.setTask k (.connected after)).Sound addr :=
        sound.congr rfl (live_connected live after)
      exact still.exists_handle display ((live_connected live after k).mpr ⟨_, live⟩) _

theorem sound_of_run {history : List (Action κ ε)} {chat : Chat κ σ ε}
    (run : (system addr display).run? history = some chat)
    (distinct : (system addr display).Always (registry addr display).Distinct history) :
    chat.Sound addr where
  own := Registry.listed_of_run run distinct
  received address tx listed := by
    have owned : (registry addr display).Owned chat := Registry.owned_of_run run
    exact (owned address tx listed).2

def DistinctOpen (addr : κ → σ) (chat : Chat κ σ ε) : Prop :=
  ∀ j k, chat.Live j → chat.Live k → addr j = addr k → j = k

/--
While the addresses of open connections are pairwise distinct, in every order of
what the connections do: an open connection has its own `Tx` in the map, every
`Tx` there has its receiver, and no reader panics, whatever line it handles.
-/
theorem no_panic {history : List (Action κ ε)} {chat : Chat κ σ ε}
    (run : (system addr display).run? history = some chat)
    (distinct : (system addr display).Always (DistinctOpen addr) history) :
    (∀ k, chat.Live k → chat.connections.lookup (addr k) = some k) ∧
      (∀ address tx, chat.connections.lookup address = some tx → chat.Live tx) ∧
      (∀ k message, chat.Live k → (chat.handle addr display k message).isSome) ∧
      ∀ k, chat.Live k → (chat.step? addr display (.read k)).isSome := by
  have sound := sound_of_run run distinct
  refine ⟨sound.own, sound.received, ?_, ?_⟩
  · intro k message live
    obtain ⟨next, handled⟩ := sound.exists_handle display live message
    rw [handled]
    rfl
  · rintro k ⟨connection, live⟩
    obtain ⟨next, reads⟩ := sound.exists_read display live
    have stepped : chat.step? addr display (.read k) = some next := by
      rw [step?, live]
      exact reads
    rw [stepped]
    rfl

/-- Two connections from two addresses; the second one sends a line that is not UTF-8. -/
def badLine : List (Action Nat Unit) :=
  [.accept 0 [], .accept 1 [.chunk [0xFF, 10] (List.cons_ne_nil _ _)], .read 1]

theorem no_panic_bad_line : ∃ chat : Chat Nat Nat Unit,
    (system id fun _ => "").run? badLine = some chat ∧
      chat.connections.lookup 1 = some 1 ∧ (chat.step? id (fun _ => "") (.read 0)).isSome := by
  refine ⟨_, rfl, ?_⟩
  have distinct : (system id fun _ => "").Always (DistinctOpen id) badLine :=
    fun _ _ _ _ _ _ _ _ same => same
  obtain ⟨own, _, _, reads⟩ := @no_panic Nat Nat Unit _ _ id (fun _ => "") badLine _ rfl distinct
  exact ⟨own 1 ⟨_, rfl⟩, reads 0 ⟨_, rfl⟩⟩

end Chat

end RustDemo.TokioChat
