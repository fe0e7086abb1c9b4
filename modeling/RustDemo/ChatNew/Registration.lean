import RustDemo.ChatNew.Broadcast

/-!
# Registration of peers

The shared map of `chatnew` as a registry.  A peer is alive from `Peer::new` to
its `Drop`.  Whoever stands in the map is alive, so the broadcast loop finds a
channel behind every `Tx`.
-/

namespace RustDemo.ChatNew

open RustDemo.Collections RustDemo.Transition

variable {κ σ ε : Type} [DecidableEq κ] [DecidableEq σ] {addr : κ → σ}

def Task.Live (task : Task ε) : Prop := ∃ peer, task = .peer peer

theorem Task.live_of_unboundedSend {task next : Task ε} {line : Bytes}
    (sent : task.unboundedSend line = some next) : next.Live ↔ task.Live := by
  cases task with
  | peer peer =>
      cases sent
      exact ⟨fun _ => ⟨peer, rfl⟩, fun _ => ⟨_, rfl⟩⟩
  | dropped peer =>
      cases sent
      constructor <;> rintro ⟨_, ⟨⟩⟩
  | absent => cases sent
  | naming lines => cases sent
  | done => cases sent

theorem Task.unboundedSend_of_live {task : Task ε} (live : task.Live) (line : Bytes) :
    ∃ next, task.unboundedSend line = some next ∧ next.Live := by
  obtain ⟨peer, rfl⟩ := live
  exact ⟨_, rfl, _, rfl⟩

theorem Task.Kept.live {task after : Task ε} (kept : task.Kept after) : after.Live ↔ task.Live := by
  cases kept with
  | peer kept => exact ⟨fun _ => ⟨_, rfl⟩, fun _ => ⟨_, rfl⟩⟩
  | accepted incoming => constructor <;> rintro ⟨_, ⟨⟩⟩
  | naming wr accepted => constructor <;> rintro ⟨_, ⟨⟩⟩
  | left lines => constructor <;> rintro ⟨_, ⟨⟩⟩
  | released peer => constructor <;> rintro ⟨_, ⟨⟩⟩

namespace Chat

def change (chat : Chat κ σ ε) : Action κ ε → Change κ
  | .name k =>
      match chat.tasks k with
      | .naming lines =>
          match lines.poll.1 with
          | .ok (.ready (some _)) => .register k
          | _ => .keep
      | _ => .keep
  | .drop k => .unregister k
  | _ => .keep

def Live (chat : Chat κ σ ε) (k : κ) : Prop := (chat.tasks k).Live

omit [DecidableEq σ] in
theorem live_setTask {chat : Chat κ σ ε} {k : κ} {task : Task ε} (kept : (chat.tasks k).Kept task)
    (j : κ) : (chat.setTask k task).Live j ↔ chat.Live j := by
  by_cases here : j = k
  · subst here
    rw [Live, setTask_self]
    exact kept.live
  · rw [Live, setTask_of_ne _ _ here]
    exact Iff.rfl

theorem applies_setTask {chat : Chat κ σ ε} {k : κ} {task : Task ε}
    (kept : (chat.tasks k).Kept task) :
    Change.keep.Applies addr chat.peers (chat.setTask k task).peers chat.Live
      (chat.setTask k task).Live :=
  .keep (fun _ => rfl) (live_setTask kept)

theorem applies_newPeer {chat : Chat κ σ ε} {k : κ} {before lines : Lines ε} {name : Bytes}
    (waiting : chat.tasks k = .naming before) :
    (Change.register k).Applies addr chat.peers (chat.newPeer addr k name lines).peers chat.Live
      (chat.newPeer addr k name lines).Live := by
  refine .register ?_ (fun address => HashMap.lookup_insert ..) fun j => ?_
  · rintro ⟨peer, live⟩
    cases waiting.symm.trans live
  · by_cases here : j = k
    · subst here
      exact ⟨fun _ => Or.inl rfl, fun _ => ⟨_, setTask_self ..⟩⟩
    · have same : (chat.newPeer addr k name lines).tasks j = chat.tasks j := setTask_of_ne _ _ here
      rw [Live, same]
      exact ⟨Or.inr, fun either => either.resolve_left here⟩

theorem applies_drop {chat : Chat κ σ ε} {k : κ} {peer : Peer ε}
    (live : chat.tasks k = .peer peer) :
    (Change.unregister k).Applies addr chat.peers (chat.drop addr k peer).peers chat.Live
      (chat.drop addr k peer).Live := by
  refine .unregister ⟨peer, live⟩ (fun address => HashMap.lookup_erase ..) fun j => ?_
  by_cases here : j = k
  · subst here
    have gone : (chat.drop addr j peer).tasks j = .dropped peer := setTask_self ..
    constructor
    · rintro ⟨after, still⟩
      cases gone.symm.trans still
    · rintro ⟨other, -⟩
      exact absurd rfl other
  · have same : (chat.drop addr k peer).tasks j = chat.tasks j := setTask_of_ne _ _ here
    rw [Live, same]
    exact ⟨fun lives => ⟨here, lives⟩, And.right⟩

theorem live_broadcast {chat next : Chat κ σ ε} {said : Said κ}
    (sent : chat.broadcast addr said = some next) :
    next.peers = chat.peers ∧ ∀ k, next.Live k ↔ chat.Live k := by
  obtain ⟨tasks, loop, rfl⟩ := Option.map_eq_some_iff.mp sent
  rw [sendToOthers_eq_sendAll] at loop
  exact ⟨rfl, sendAll_preserves (P := Task.Live) (fun _ _ => Task.live_of_unboundedSend) loop⟩

theorem applies_moved {chat : Chat κ σ ε} {k : κ} {peer after : Peer ε}
    (live : chat.tasks k = .peer peer) (kept : peer.Kept after) :
    Change.keep.Applies addr chat.peers (chat.setTask k (.peer after)).peers chat.Live
      (chat.setTask k (.peer after)).Live :=
  applies_setTask (by rw [live]; exact .peer kept)

theorem applies_said {chat next : Chat κ σ ε} {k : κ} {peer after : Peer ε} {said : Said κ}
    (live : chat.tasks k = .peer peer) (kept : peer.Kept after)
    (sent : (chat.setTask k (.peer after)).broadcast addr said = some next) :
    Change.keep.Applies addr chat.peers next.peers chat.Live next.Live := by
  have moved : Change.keep.Applies addr chat.peers (chat.setTask k (.peer after)).peers chat.Live
      (chat.setTask k (.peer after)).Live := applies_moved live kept
  obtain ⟨map, lives⟩ := live_broadcast sent
  cases moved with
  | keep lookup same =>
      rw [map]
      exact .keep lookup fun j => (lives j).trans (same j)

theorem applies_of_step? {chat next : Chat κ σ ε} {action : Action κ ε}
    (stepped : chat.step? addr action = some next) :
    (chat.change action).Applies addr chat.peers next.peers chat.Live next.Live := by
  cases acts stepped with
  | accepted incoming absent => exact applies_setTask (by rw [absent]; exact .accepted incoming)
  | @failed k lines _ _ waiting polls =>
      simp only [change, waiting, polls]
      exact applies_setTask (by rw [waiting]; exact .left lines)
  | @left k lines _ waiting polls =>
      simp only [change, waiting, polls]
      exact applies_setTask (by rw [waiting]; exact .left lines)
  | @waits k lines _ waiting polls =>
      obtain ⟨wr, accepted⟩ := lines.poll_writing
      rw [polls] at wr accepted
      simp only [change, waiting, polls]
      exact applies_setTask (by rw [waiting]; exact .naming wr accepted)
  | joined waiting polls =>
      simp only [change, waiting, polls]
      exact applies_newPeer waiting
  | polled live started => exact applies_moved live (Peer.kept_start started)
  | received live received => exact applies_moved live (Peer.kept_receive received)
  | flushed live flushed => exact applies_moved live (Peer.kept_flush flushed)
  | read live read => exact applies_moved live (Peer.kept_read read)
  | said live read sent => exact applies_said live (Peer.kept_read read) sent
  | dropped live => exact applies_drop live
  | released gone => exact applies_setTask (by rw [gone]; exact .released _)

variable (addr) in
/-- `Shared.peers`. -/
def registry : Registry (system addr : System (Chat κ σ ε) (Action κ ε)) κ σ where
  addr := addr
  map := Chat.peers
  Live := Chat.Live
  change := Chat.change
  map_init _ := rfl
  live_init _ := by rintro ⟨_, ⟨⟩⟩
  step _ _ _ := applies_of_step?

/-! ## Registrations that last -/

def Receives (addr : κ → σ) (chat : Chat κ σ ε) (k : κ) : Prop :=
  ∀ said peer next, addr said.sender ≠ addr k → chat.tasks k = .peer peer →
    chat.broadcast addr said = some next →
      next.tasks k = .peer { peer with rx := peer.rx ++ [said.line] }

theorem receives_of_listed {chat : Chat κ σ ε} (owned : (registry addr).Owned chat) {k : κ}
    (listed : chat.peers.lookup (addr k) = some k) : chat.Receives addr k := by
  intro said peer next foreign live sent
  obtain ⟨tasks, loop, rfl⟩ := Option.map_eq_some_iff.mp sent
  rw [sendToOthers_eq_sendAll] at loop
  have there : k ∈ others (addr said.sender) chat.peers.entries :=
    mem_others.mpr ⟨addr k, Ne.symm foreign, (HashMap.mem_entries_iff _ _ _).mpr listed⟩
  have queued := sendAll_of_mem (others_nodup owned.values_nodup) loop there
  rw [live] at queued
  exact (Option.some.inj queued).symm

/--
Every peer that registered last under its address has its own `Tx` in the map
and receives what others say.
-/
def Registered (addr : κ → σ) (state : Chat κ σ ε × (σ → Option κ)) : Prop :=
  ∀ k, state.1.Live k → state.2 (addr k) = some k →
    state.1.peers.lookup (addr k) = some k ∧ state.1.Receives addr k

theorem always_registered_iff {history : List (Action κ ε)} {chat : Chat κ σ ε}
    (run : (system addr).run? history = some chat) :
    (registry addr).recorded.Always (Registered addr) history ↔
      (registry addr).recorded.Meets (registry addr).RemovesOwn history :=
  Registry.held_with_iff (fun _ _ owned listed => receives_of_listed owned listed) run

/-- Two connections of one address are named, and then the first of them is dropped. -/
def lateDrop : List (Action Nat Unit) :=
  [.accept 0 [.chunk [97, 13, 10] (List.cons_ne_nil _ _)], .name 0,
    .accept 1 [.chunk [98, 13, 10] (List.cons_ne_nil _ _)], .name 1, .drop 0]

theorem exists_sendToOthers {chat : Chat κ σ ε}
    (lives : ∀ address k, chat.peers.lookup address = some k → chat.Live k) (own : σ)
    (line : Bytes) : ∃ after, sendToOthers own line chat.peers.entries chat.tasks = some after := by
  rw [sendToOthers_eq_sendAll]
  refine exists_sendAll (P := Task.Live) (fun _ live => Task.unboundedSend_of_live live line) ?_
  intro k listed
  obtain ⟨address, -, entry⟩ := mem_others.mp listed
  exact lives address k ((HashMap.mem_entries_iff _ _ _).mp entry)

omit [DecidableEq κ] [DecidableEq σ] in
theorem exists_read {peer : Peer ε} (reading : peer.position = .reading) :
    ∃ after message, peer.read = some (after, message) := by
  unfold Peer.read
  simp only [reading]
  split
  · exact ⟨_, _, rfl⟩
  · exact ⟨_, _, rfl⟩
  · exact ⟨_, _, rfl⟩
  · exact ⟨_, _, rfl⟩

/--
Every `Tx` in the shared map belongs to a peer that has not been dropped.  So
the broadcast loop never fails, whatever line it sends, and a peer that has come
to its reads takes the next one.
-/
theorem send_never_panics {history : List (Action κ ε)} {chat : Chat κ σ ε}
    (run : (system addr).run? history = some chat) :
    (∀ address k, chat.peers.lookup address = some k → ∃ peer, chat.tasks k = .peer peer) ∧
      (∀ own line, ∃ after, sendToOthers own line chat.peers.entries chat.tasks = some after) ∧
      ∀ k peer, chat.tasks k = .peer peer → peer.position = .reading →
        ∃ next, chat.step? addr (.read k) = some next := by
  have owned : (registry addr).Owned chat := Registry.owned_of_run run
  have lives : ∀ address k, chat.peers.lookup address = some k → chat.Live k :=
    fun address k listed => (owned address k listed).2
  refine ⟨lives, exists_sendToOthers lives, ?_⟩
  intro k peer live reading
  obtain ⟨after, message, read⟩ := exists_read reading
  rw [step?, live]
  dsimp only
  rw [Chat.read, read]
  cases message with
  | none => exact ⟨_, rfl⟩
  | some message =>
      have moves : (chat.tasks k).Kept (.peer after) := by
        rw [live]
        exact .peer (Peer.kept_read read)
      have still : ∀ address j, (chat.setTask k (.peer after)).peers.lookup address = some j →
          (chat.setTask k (.peer after)).Live j :=
        fun address j listed => (live_setTask moves j).mpr (lives address j listed)
      obtain ⟨tasks, loop⟩ :=
        exists_sendToOthers still (addr k) (Said.line ⟨k, peer.name, message⟩)
      exact ⟨_, Option.map_eq_some_iff.mpr ⟨tasks, loop, rfl⟩⟩

/-- A second connection from the same address takes the entry of the first; a third one reads. -/
def sharedAddress : List (Action Nat Unit) :=
  [.accept 0 [.chunk [97, 13, 10] (List.cons_ne_nil _ _)], .name 0,
    .accept 1 [.chunk [98, 13, 10] (List.cons_ne_nil _ _)], .name 1,
    .accept 2 [.chunk [99, 13, 10] (List.cons_ne_nil _ _),
      .chunk [120, 13, 10] (List.cons_ne_nil _ _)], .name 2,
    .poll 2, .receive 2, .flush 2 .notReady]

theorem send_never_panics_shared_address :
    ∃ chat peer, (system fun k : Nat => k / 2).run? sharedAddress = some chat ∧
      chat.peers.lookup 0 = some 1 ∧ chat.tasks 2 = .peer peer ∧
      ∃ next, chat.step? (fun k => k / 2) (.read 2) = some next :=
  ⟨_, _, rfl, rfl, rfl, (@send_never_panics Nat Nat Unit _ _ (fun k => k / 2)
    sharedAddress _ rfl).2.2 2 _ rfl rfl⟩

end Chat

end RustDemo.ChatNew
