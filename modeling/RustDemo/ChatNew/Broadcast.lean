import RustDemo.ChatNew.Peer
import RustDemo.Collections.Registry
import Mathlib.Data.List.Sublists

/-!
# Broadcast end to end

What a peer has written, has in its write buffer and has in its channel is, in
this order, every line that others broadcast since it was registered.
-/

namespace RustDemo.ChatNew

open RustDemo.Collections RustDemo.Transition

/-- Every byte that has been sent to the peer, in the order in which it leaves. -/
def Peer.held {ε : Type} (peer : Peer ε) : Bytes :=
  peer.lines.socket.accepted ++ peer.lines.wr ++ peer.rx.flatten

/-- The step moves bytes towards the socket, and takes none away. -/
structure Peer.Kept {ε : Type} (before after : Peer ε) : Prop where
  name : after.name = before.name
  since : after.since = before.since
  held : after.held = before.held

namespace Peer

variable {ε : Type} {peer after : Peer ε}

theorem kept_start (started : peer.start = some after) : peer.Kept after := by
  obtain ⟨-, rfl⟩ := starts started
  exact ⟨rfl, rfl, rfl⟩

theorem kept_receive (received : peer.receive = some after) : peer.Kept after := by
  cases receives received with
  | line turn queued => exact ⟨rfl, rfl, by simp [held, Lines.buffer, queued]⟩
  | last turn queued limit => exact ⟨rfl, rfl, by simp [held, Lines.buffer, queued]⟩
  | none turn queued => exact ⟨rfl, rfl, rfl⟩

theorem kept_flush {event : WriteEvent ε} (flushed : peer.flush event = some after) :
    peer.Kept after := by
  cases flushes flushed with
  | again turn round => exact ⟨rfl, rfl, congrArg (· ++ peer.rx.flatten) round.written⟩
  | done turn round => exact ⟨rfl, rfl, congrArg (· ++ peer.rx.flatten) round.written⟩
  | failed turn round => exact ⟨rfl, rfl, congrArg (· ++ peer.rx.flatten) round.written⟩

theorem kept_read {message : Option Bytes} (read : peer.read = some (after, message)) :
    peer.Kept after := by
  obtain ⟨wr, accepted⟩ := peer.lines.poll_writing
  have unwritten : peer.lines.poll.2.socket.accepted ++ peer.lines.poll.2.wr ++ peer.rx.flatten =
      peer.held := by
    rw [wr, accepted]
    rfl
  cases reads read with
  | error turn polls =>
      rw [polls] at unwritten
      exact ⟨rfl, rfl, unwritten⟩
  | notReady turn polls =>
      rw [polls] at unwritten
      exact ⟨rfl, rfl, unwritten⟩
  | closed turn polls =>
      rw [polls] at unwritten
      exact ⟨rfl, rfl, unwritten⟩
  | line turn polls =>
      rw [polls] at unwritten
      exact ⟨rfl, rfl, unwritten⟩

end Peer

/-- A step of a task that neither registers it nor sends anything. -/
inductive Task.Kept {ε : Type} : Task ε → Task ε → Prop where
  | accepted (incoming : List (ReadEvent ε)) :
      Kept .absent (.naming (Lines.new ⟨incoming, []⟩))
  | naming {lines after : Lines ε} (wr : after.wr = lines.wr)
      (accepted : after.socket.accepted = lines.socket.accepted) :
      Kept (.naming lines) (.naming after)
  | left (lines : Lines ε) : Kept (.naming lines) .done
  | peer {peer after : Peer ε} (kept : peer.Kept after) : Kept (.peer peer) (.peer after)
  | released (peer : Peer ε) : Kept (.dropped peer) .done

namespace Chat

variable {κ σ ε : Type} {addr : κ → σ}

section Steps

variable [DecidableEq κ] [DecidableEq σ]

inductive Stepped (addr : κ → σ) (chat : Chat κ σ ε) : Chat κ σ ε → Prop where
  | kept {k : κ} {task : Task ε} (kept : (chat.tasks k).Kept task) :
      Stepped addr chat (chat.setTask k task)
  | joined {k : κ} {before lines : Lines ε} {name : Bytes} (waiting : chat.tasks k = .naming before)
      (wr : lines.wr = before.wr) (accepted : lines.socket.accepted = before.socket.accepted) :
      Stepped addr chat (chat.newPeer addr k name lines)
  | said {k : κ} {peer after : Peer ε} {message : Bytes} {next : Chat κ σ ε}
      (live : chat.tasks k = .peer peer) (kept : peer.Kept after)
      (sent : (chat.setTask k (.peer after)).broadcast addr ⟨k, peer.name, message⟩ = some next) :
      Stepped addr chat next
  | dropped {k : κ} {peer : Peer ε} (live : chat.tasks k = .peer peer) :
      Stepped addr chat (chat.drop addr k peer)

theorem stepped_kept {chat : Chat κ σ ε} {k : κ} {peer after : Peer ε}
    (live : chat.tasks k = .peer peer) (kept : peer.Kept after) :
    Stepped addr chat (chat.setTask k (.peer after)) :=
  .kept (by rw [live]; exact .peer kept)

theorem stepped_of_step? {chat next : Chat κ σ ε} {action : Action κ ε}
    (stepped : chat.step? addr action = some next) : Stepped addr chat next := by
  cases acts stepped with
  | accepted incoming absent => exact .kept (by rw [absent]; exact .accepted incoming)
  | @failed k lines _ _ waiting polls => exact .kept (by rw [waiting]; exact .left lines)
  | @left k lines _ waiting polls => exact .kept (by rw [waiting]; exact .left lines)
  | @waits k lines _ waiting polls =>
      obtain ⟨wr, accepted⟩ := lines.poll_writing
      rw [polls] at wr accepted
      exact .kept (by rw [waiting]; exact .naming wr accepted)
  | @joined k lines _ _ waiting polls =>
      obtain ⟨wr, accepted⟩ := lines.poll_writing
      rw [polls] at wr accepted
      exact .joined waiting wr accepted
  | polled live started => exact stepped_kept live (Peer.kept_start started)
  | received live received => exact stepped_kept live (Peer.kept_receive received)
  | flushed live flushed => exact stepped_kept live (Peer.kept_flush flushed)
  | read live read => exact stepped_kept live (Peer.kept_read read)
  | said live read sent => exact .said live (Peer.kept_read read) sent
  | dropped live => exact .dropped live
  | released gone => exact .kept (by rw [gone]; exact .released _)

end Steps

def pushed (task : Task ε) (line : Bytes) : Task ε := (task.unboundedSend line).getD task

theorem pushed_eq_peer {task : Task ε} {line : Bytes} {after : Peer ε}
    (same : pushed task line = .peer after) :
    ∃ peer, task = .peer peer ∧ after = { peer with rx := peer.rx ++ [line] } := by
  cases task with
  | peer peer =>
      cases same
      exact ⟨peer, rfl, rfl⟩
  | absent => cases same
  | naming lines => cases same
  | dropped peer => cases same
  | done => cases same

theorem pushed_eq_naming {task : Task ε} {line : Bytes} {lines : Lines ε}
    (same : pushed task line = .naming lines) : task = .naming lines := by
  cases task with
  | naming held =>
      cases same
      rfl
  | absent => cases same
  | peer peer => cases same
  | dropped peer => cases same
  | done => cases same

/-- The loop has a line for each connection that is in the map under another address. -/
def Listed (own : σ) (entries : List (Sigma fun _ : σ => κ)) (k : κ) : Prop :=
  ∃ other, other ≠ own ∧ ⟨other, k⟩ ∈ entries

section Loop

variable [DecidableEq κ] [DecidableEq σ]

omit [DecidableEq κ] in
theorem listed_iff {own : σ} {entries : List (Sigma fun _ : σ => κ)} {k : κ} :
    Listed own entries k ↔ k ∈ others own entries := mem_others.symm

/-- The broadcast loop sends to the entries under other addresses. -/
theorem sendToOthers_eq_sendAll (own : σ) (line : Bytes) (entries : List (Sigma fun _ : σ => κ))
    (tasks : κ → Task ε) :
    sendToOthers own line entries tasks =
      sendAll (fun task => task.unboundedSend line) (others own entries) tasks := by
  induction entries generalizing tasks with
  | nil => rfl
  | cons entry entries ih =>
      obtain ⟨other, tx⟩ := entry
      rw [sendToOthers, others_cons]
      split
      · rw [sendAll]
        simp only [ih]
      · exact ih tasks

/-- No channel is in the map twice: each listed connection gets the line once. -/
theorem sendToOthers_eq {own : σ} {line : Bytes} {entries : List (Sigma fun _ : σ => κ)}
    {tasks after : κ → Task ε} (distinct : (entries.map Sigma.snd).Nodup)
    (sent : sendToOthers own line entries tasks = some after) (k : κ) :
    (Listed own entries k → after k = pushed (tasks k) line) ∧
      (¬ Listed own entries k → after k = tasks k) := by
  rw [sendToOthers_eq_sendAll] at sent
  rw [listed_iff]
  constructor
  · intro listed
    have pushes := sendAll_of_mem (others_nodup distinct) sent listed
    rw [pushed, pushes, Option.getD_some]
  · exact sendAll_of_notMem sent

theorem broadcast_eq {chat next : Chat κ σ ε} {said : Said κ}
    (distinct : (chat.peers.entries.map Sigma.snd).Nodup)
    (sent : chat.broadcast addr said = some next) :
    next.peers = chat.peers ∧ next.log = chat.log ++ [said] ∧
      ∀ k, (Listed (addr said.sender) chat.peers.entries k →
          next.tasks k = pushed (chat.tasks k) said.line) ∧
        (¬ Listed (addr said.sender) chat.peers.entries k → next.tasks k = chat.tasks k) := by
  obtain ⟨tasks, loop, rfl⟩ := Option.map_eq_some_iff.mp sent
  exact ⟨rfl, rfl, sendToOthers_eq distinct loop⟩

end Loop

/-! ## The lines that others broadcast -/

section Heard

variable [DecidableEq κ]

/-- The lines of the log, with their place in it, that others broadcast since then. -/
def heard (log : List (Said κ)) (k : κ) (since : Nat) : List (Said κ × Nat) :=
  log.zipIdx.filter fun entry => since ≤ entry.2 ∧ entry.1.sender ≠ k

theorem heard_now (log : List (Said κ)) (k : κ) : heard log k log.length = [] := by
  rw [heard, List.filter_eq_nil_iff]
  intro entry there
  have early := List.snd_lt_of_mem_zipIdx there
  simp only [decide_eq_true_eq, not_and]
  omega

theorem heard_own {log : List (Said κ)} {said : Said κ} {k : κ} (own : said.sender = k)
    (since : Nat) : heard (log ++ [said]) k since = heard log k since := by
  simp [heard, List.zipIdx_append, own]

theorem heard_other {log : List (Said κ)} {said : Said κ} {k : κ} {since : Nat}
    (other : said.sender ≠ k) (earlier : since ≤ log.length) :
    heard (log ++ [said]) k since = heard log k since ++ [(said, log.length)] := by
  simp [heard, List.zipIdx_append, other, earlier]

theorem heard_nodup (log : List (Said κ)) (k : κ) (since : Nat) : (heard log k since).Nodup := by
  apply List.Nodup.filter
  apply List.Nodup.of_map Prod.snd
  rw [List.zipIdx_map_snd]
  exact List.nodup_range'

theorem pair_sublist_heard {log : List (Said κ)} {k : κ} {since : Nat} {x y : Said κ × Nat}
    (first : x ∈ heard log k since) (second : y ∈ heard log k since) :
    [x, y].Sublist (heard log k since) ↔ [x, y].Sublist log.zipIdx := by
  constructor
  · intro ordered
    exact ordered.trans List.filter_sublist
  · intro ordered
    have kept := ordered.filter fun entry => decide (since ≤ entry.2 ∧ entry.1.sender ≠ k)
    have firstKept := (List.mem_filter.mp first).2
    have secondKept := (List.mem_filter.mp second).2
    simp only [List.filter, firstKept, secondKept] at kept
    exact kept

end Heard

def DistinctAddresses (addr : κ → σ) (chat : Chat κ σ ε) : Prop :=
  ∀ j k one other, chat.tasks j = .peer one → chat.tasks k = .peer other → addr j = addr k → j = k

theorem distinctAddresses_of_injective (injective : Function.Injective addr)
    (chat : Chat κ σ ε) : chat.DistinctAddresses addr :=
  fun _ _ _ _ _ _ same => injective same

variable [DecidableEq κ] [DecidableEq σ]

/-- Every `Tx` in the map belongs to a live peer, which it has under its own address. -/
def Owned (addr : κ → σ) (chat : Chat κ σ ε) : Prop :=
  ∀ address k, chat.peers.lookup address = some k →
    addr k = address ∧ ∃ peer, chat.tasks k = .peer peer

omit [DecidableEq κ] in
theorem Owned.distinct {chat : Chat κ σ ε} (owned : chat.Owned addr) :
    (chat.peers.entries.map Sigma.snd).Nodup :=
  HashMap.values_nodup addr _ fun address k listed => (owned address k listed).1

structure Consistent (addr : κ → σ) (chat : Chat κ σ ε) : Prop where
  owned : chat.Owned addr
  unwritten : ∀ k lines, chat.tasks k = .naming lines →
    lines.wr = [] ∧ lines.socket.accepted = []
  registered : ∀ k peer, chat.tasks k = .peer peer → chat.peers.lookup (addr k) = some k
  since_le : ∀ k peer, chat.tasks k = .peer peer → peer.since ≤ chat.log.length
  held : ∀ k peer, chat.tasks k = .peer peer →
    peer.held = ((heard chat.log k peer.since).map fun entry => entry.1.line).flatten

theorem consistent_new : (new : Chat κ σ ε).Consistent addr :=
  ⟨nofun, nofun, nofun, nofun, nofun⟩

namespace Consistent

variable {chat next : Chat κ σ ε}

theorem setTask (consistent : chat.Consistent addr) {k : κ} {task : Task ε}
    (kept : (chat.tasks k).Kept task) : (chat.setTask k task).Consistent addr := by
  -- a peer of the next state was one before, with the same `since` and the same bytes
  have peers : ∀ j after, (chat.setTask k task).tasks j = .peer after →
      ∃ peer, chat.tasks j = .peer peer ∧ peer.Kept after := by
    intro j after live
    by_cases here : j = k
    · subst here
      rw [setTask_self] at live
      rw [live] at kept
      generalize chat.tasks j = before at kept ⊢
      cases kept with
      | peer kept => exact ⟨_, rfl, kept⟩
    · rw [setTask_of_ne _ _ here] at live
      exact ⟨after, live, rfl, rfl, rfl⟩
  constructor
  · intro address j listed
    obtain ⟨same, peer, live⟩ := consistent.owned address j listed
    refine ⟨same, ?_⟩
    by_cases here : j = k
    · subst here
      rw [live] at kept
      cases kept with
      | peer kept => exact ⟨_, setTask_self ..⟩
    · exact ⟨peer, (setTask_of_ne _ _ here).trans live⟩
  · intro j lines waiting
    by_cases here : j = k
    · subst here
      rw [setTask_self] at waiting
      rw [waiting] at kept
      have before := consistent.unwritten j
      generalize chat.tasks j = old at kept before
      cases kept with
      | accepted incoming => exact ⟨rfl, rfl⟩
      | naming wr accepted =>
          rw [wr, accepted]
          exact before _ rfl
    · rw [setTask_of_ne _ _ here] at waiting
      exact consistent.unwritten j lines waiting
  · intro j after live
    obtain ⟨peer, before, -⟩ := peers j after live
    exact consistent.registered j peer before
  · intro j after live
    obtain ⟨peer, before, kept⟩ := peers j after live
    rw [kept.since]
    exact consistent.since_le j peer before
  · intro j after live
    obtain ⟨peer, before, kept⟩ := peers j after live
    rw [kept.held, kept.since]
    exact consistent.held j peer before

theorem newPeer (consistent : chat.Consistent addr) {k : κ} {before lines : Lines ε}
    {name : Bytes} (waiting : chat.tasks k = .naming before) (wr : lines.wr = before.wr)
    (accepted : lines.socket.accepted = before.socket.accepted)
    (distinct : (chat.newPeer addr k name lines).DistinctAddresses addr) :
    (chat.newPeer addr k name lines).Consistent addr := by
  obtain ⟨noWr, noAccepted⟩ := consistent.unwritten k before waiting
  have fresh : (chat.newPeer addr k name lines).tasks k =
      .peer ⟨name, lines, [], .idle, false, chat.log.length⟩ := setTask_self ..
  have others : ∀ j, j ≠ k → (chat.newPeer addr k name lines).tasks j = chat.tasks j :=
    fun _ other => setTask_of_ne _ _ other
  have lookup : ∀ address, (chat.newPeer addr k name lines).peers.lookup address =
      if address = addr k then some k else chat.peers.lookup address :=
    fun address => HashMap.lookup_insert ..
  constructor
  · intro address j listed
    rw [lookup] at listed
    split at listed
    · rename_i same
      cases listed
      exact ⟨same.symm, _, fresh⟩
    · obtain ⟨same, peer, live⟩ := consistent.owned address j listed
      have other : j ≠ k := by
        rintro rfl
        cases waiting.symm.trans live
      exact ⟨same, peer, (others j other).trans live⟩
  · intro j held
    by_cases here : j = k
    · subst here
      rw [fresh]
      nofun
    · rw [others j here]
      exact consistent.unwritten j held
  · intro j peer live
    rw [lookup]
    split
    · rename_i same
      rw [distinct j k peer _ live fresh same]
    · rename_i other
      have elsewhere : j ≠ k := fun same => other (congrArg addr same)
      rw [others j elsewhere] at live
      exact consistent.registered j peer live
  · intro j peer live
    by_cases here : j = k
    · subst here
      cases fresh.symm.trans live
      exact Nat.le_refl _
    · rw [others j here] at live
      exact consistent.since_le j peer live
  · intro j peer live
    by_cases here : j = k
    · subst here
      cases fresh.symm.trans live
      have silent := heard_now chat.log j
      simp [Peer.held, accepted, wr, noWr, noAccepted, silent, Chat.newPeer, Chat.setTask]
    · rw [others j here] at live
      exact consistent.held j peer live

/-- A broadcast puts the line into the channel of every live peer but the sender. -/
theorem peer_of_broadcast (consistent : chat.Consistent addr) {said : Said κ} {peer : Peer ε}
    (live : chat.tasks said.sender = .peer peer) (sent : chat.broadcast addr said = some next)
    {k : κ} {after : Peer ε} (there : next.tasks k = .peer after) :
    ∃ before, chat.tasks k = .peer before ∧
      after = if said.sender = k then before
        else { before with rx := before.rx ++ [said.line] } := by
  obtain ⟨-, -, tasks⟩ := broadcast_eq consistent.owned.distinct sent
  by_cases listed : Listed (addr said.sender) chat.peers.entries k
  · have other : said.sender ≠ k := by
      -- the sender is in the map, but under the address that the loop leaves out
      rintro rfl
      obtain ⟨address, different, entry⟩ := listed
      exact different
        (consistent.owned address _ ((HashMap.mem_entries_iff _ _ _).mp entry)).1.symm
    rw [(tasks k).1 listed] at there
    obtain ⟨before, was, pushed⟩ := pushed_eq_peer there
    exact ⟨before, was, by rw [if_neg other]; exact pushed⟩
  · rw [(tasks k).2 listed] at there
    have registered := consistent.registered k after there
    have same : said.sender = k := by
      by_contra different
      apply listed
      refine ⟨addr k, ?_, (HashMap.mem_entries_iff _ _ _).mpr registered⟩
      intro shared
      rw [shared] at registered
      have both := (consistent.registered said.sender peer live).symm.trans registered
      exact different (Option.some.inj both)
    exact ⟨after, there, by rw [if_pos same]⟩

theorem broadcast (consistent : chat.Consistent addr) {said : Said κ} {peer : Peer ε}
    (live : chat.tasks said.sender = .peer peer) (sent : chat.broadcast addr said = some next) :
    next.Consistent addr := by
  obtain ⟨map, log, tasks⟩ := broadcast_eq consistent.owned.distinct sent
  constructor
  · intro address k listed
    rw [map] at listed
    obtain ⟨same, before, was⟩ := consistent.owned address k listed
    refine ⟨same, ?_⟩
    by_cases listed : Listed (addr said.sender) chat.peers.entries k
    · rw [(tasks k).1 listed, was]
      exact ⟨_, rfl⟩
    · rw [(tasks k).2 listed, was]
      exact ⟨_, rfl⟩
  · intro k lines waiting
    by_cases listed : Listed (addr said.sender) chat.peers.entries k
    · rw [(tasks k).1 listed] at waiting
      exact consistent.unwritten k lines (pushed_eq_naming waiting)
    · rw [(tasks k).2 listed] at waiting
      exact consistent.unwritten k lines waiting
  · intro k after there
    obtain ⟨before, was, -⟩ := consistent.peer_of_broadcast live sent there
    rw [map]
    exact consistent.registered k before was
  · intro k after there
    obtain ⟨before, was, rfl⟩ := consistent.peer_of_broadcast live sent there
    have earlier := consistent.since_le k before was
    rw [log, List.length_append]
    split <;> exact Nat.le_add_right_of_le earlier
  · intro k after there
    obtain ⟨before, was, rfl⟩ := consistent.peer_of_broadcast live sent there
    have held := consistent.held k before was
    rw [log]
    split
    · rename_i same
      rw [heard_own same]
      exact held
    · rename_i other
      rw [heard_other other (consistent.since_le k before was), List.map_append,
        List.flatten_append, ← held]
      simp [Peer.held]

theorem drop (consistent : chat.Consistent addr) {k : κ} {peer : Peer ε}
    (live : chat.tasks k = .peer peer) : (chat.drop addr k peer).Consistent addr := by
  have registered := consistent.registered k peer live
  have here : (chat.drop addr k peer).tasks k = .dropped peer := setTask_self ..
  have others : ∀ j, j ≠ k → (chat.drop addr k peer).tasks j = chat.tasks j :=
    fun _ other => setTask_of_ne _ _ other
  have lookup : ∀ address, (chat.drop addr k peer).peers.lookup address =
      if address = addr k then none else chat.peers.lookup address :=
    fun address => HashMap.lookup_erase ..
  have lives : ∀ j after, (chat.drop addr k peer).tasks j = .peer after →
      j ≠ k ∧ chat.tasks j = .peer after := by
    intro j after there
    have other : j ≠ k := by
      rintro rfl
      cases here.symm.trans there
    exact ⟨other, (others j other).symm.trans there⟩
  constructor
  · intro address j listed
    rw [lookup] at listed
    split at listed
    · cases listed
    · rename_i elsewhere
      obtain ⟨same, after, there⟩ := consistent.owned address j listed
      have other : j ≠ k := by
        rintro rfl
        exact elsewhere same.symm
      exact ⟨same, after, (others j other).trans there⟩
  · intro j lines waiting
    by_cases same : j = k
    · subst same
      cases here.symm.trans waiting
    · rw [others j same] at waiting
      exact consistent.unwritten j lines waiting
  · intro j after there
    obtain ⟨other, was⟩ := lives j after there
    have before := consistent.registered j after was
    rw [lookup]
    split
    · rename_i same
      rw [same, registered] at before
      exact absurd (Option.some.inj before).symm other
    · exact before
  · intro j after there
    exact consistent.since_le j after (lives j after there).2
  · intro j after there
    exact consistent.held j after (lives j after there).2

theorem step (consistent : chat.Consistent addr) (distinct : next.DistinctAddresses addr)
    {action : Action κ ε} (stepped : chat.step? addr action = some next) :
    next.Consistent addr := by
  cases stepped_of_step? stepped with
  | kept kept => exact consistent.setTask kept
  | joined waiting wr accepted => exact consistent.newPeer waiting wr accepted distinct
  | said live kept sent =>
      have moves : (Task.peer _).Kept (.peer _) := .peer kept
      rw [← live] at moves
      exact (consistent.setTask moves).broadcast (setTask_self ..) sent
  | dropped live => exact consistent.drop live

end Consistent

theorem consistent_of_run {history : List (Action κ ε)} {chat : Chat κ σ ε}
    (run : (system addr).run? history = some chat)
    (distinct : (system addr).Always (DistinctAddresses addr) history) : chat.Consistent addr :=
  (system addr).invariant_of_always (DistinctAddresses addr) (Consistent addr) consistent_new
    (fun _ _ _ consistent distinct stepped => consistent.step distinct stepped) run distinct

/--
Broadcast end to end.  For each live peer the bytes its socket accepted, its
write buffer and its channel are together the lines that the others broadcast
since it was registered, in the order of the broadcasts, each once.  Two lines
that reach two peers reach them in the same order.
-/
theorem broadcast_end_to_end {history : List (Action κ ε)} {chat : Chat κ σ ε}
    (run : (system addr).run? history = some chat)
    (distinct : (system addr).Always (DistinctAddresses addr) history) :
    (∀ k peer, chat.tasks k = .peer peer →
      peer.lines.socket.accepted ++ peer.lines.wr ++ peer.rx.flatten =
          ((heard chat.log k peer.since).map fun entry => broadcastLine entry.1.name
            entry.1.message).flatten ∧
        (heard chat.log k peer.since).Nodup) ∧
      ∀ j k one other, chat.tasks j = .peer one → chat.tasks k = .peer other →
        ∀ x ∈ heard chat.log j one.since, ∀ y ∈ heard chat.log j one.since,
          x ∈ heard chat.log k other.since → y ∈ heard chat.log k other.since →
            ([x, y].Sublist (heard chat.log j one.since) ↔
              [x, y].Sublist (heard chat.log k other.since)) := by
  have consistent := consistent_of_run run distinct
  constructor
  · intro k peer live
    exact ⟨consistent.held k peer live, heard_nodup chat.log k peer.since⟩
  · intro j k one other _ _ x firstHere y secondHere firstThere secondThere
    rw [pair_sublist_heard firstHere secondHere, pair_sublist_heard firstThere secondThere]

/-- `a` and `b` join, `a` says `x`, and the socket of `b` takes the first two bytes of it. -/
def twoPeers : List (Action Nat Unit) :=
  [.accept 1 [.chunk [97, 13, 10] nofun, .notReady, .chunk [120, 13, 10] nofun], .name 1,
    .accept 2 [.chunk [98, 13, 10] nofun, .notReady], .name 2,
    .poll 1, .receive 1, .flush 1 .notReady, .read 1,
    .poll 2, .receive 2, .receive 2, .flush 2 (.wrote 2)]

theorem broadcast_end_to_end_partial_write :
    ∃ chat peer, (system (id : Nat → Nat)).run? twoPeers = some chat ∧
      chat.tasks 2 = .peer peer ∧ peer.lines.socket.accepted = [97, 58] ∧
      peer.lines.socket.accepted ++ peer.lines.wr ++ peer.rx.flatten =
        [97, 58, 32, 120, 13, 10] :=
  ⟨_, _, rfl, rfl, rfl, ((@broadcast_end_to_end Nat Nat Unit id _ _ twoPeers _ rfl
    (fun _ _ _ _ => distinctAddresses_of_injective Function.injective_id _)).1 2 _ rfl).1.trans rfl⟩

end Chat

end RustDemo.ChatNew
