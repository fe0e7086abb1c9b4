import RustDemo.ChatNew.Yielded

/-!
# From socket to socket

What a peer hears are lines that other sockets yielded.  Names and messages were
lines, so a client that reads what its socket was sent finds one line for each
message, and the messages of one sender are a stretch of the lines it wrote.
-/

namespace RustDemo.ChatNew

open RustDemo.Collections RustDemo.Stream RustDemo.Transition

variable {κ σ ε : Type}

namespace Lines

theorem free_of_polled {lines after : Lines ε} {line : Bytes}
    (polls : lines.poll = (.ok (.ready (some line)), after)) : crlf.Free line := by
  cases polled polls with
  | line held found left => exact (Terminator.cut_spec found).2

end Lines

namespace Chat

/-- What is said, and the names of the peers that may still speak, are lines. -/
structure Framed (chat : Chat κ σ ε) : Prop where
  names : ∀ k peer, chat.tasks k = .peer peer → crlf.Free peer.name
  log : ∀ said ∈ chat.log, crlf.Free said.name ∧ crlf.Free said.message

variable [DecidableEq κ]

theorem Framed.setTask {chat : Chat κ σ ε} (framed : chat.Framed) (k : κ) {task : Task ε}
    (named : ∀ peer, task = .peer peer → crlf.Free peer.name) : (chat.setTask k task).Framed where
  names j peer live := by
    by_cases here : j = k
    · subst here
      rw [setTask_self] at live
      exact named peer live
    · rw [setTask_of_ne _ _ here] at live
      exact framed.names j peer live
  log := framed.log

theorem Framed.setPeer {chat : Chat κ σ ε} (framed : chat.Framed) {k : κ} {peer after : Peer ε}
    (live : chat.tasks k = .peer peer) (name : after.name = peer.name) :
    (chat.setTask k (.peer after)).Framed := by
  refine framed.setTask k ?_
  rintro _ ⟨⟩
  rw [name]
  exact framed.names k peer live

theorem named_of_unboundedSend {line : Bytes} (task next : Task ε)
    (sent : task.unboundedSend line = some next) :
    (∀ peer, next = .peer peer → crlf.Free peer.name) ↔
      ∀ peer, task = .peer peer → crlf.Free peer.name := by
  cases task with
  | peer receiver =>
      cases sent
      constructor
      · intro named peer same
        cases same
        exact named { receiver with rx := receiver.rx ++ [line] } rfl
      · intro named peer same
        cases same
        exact named receiver rfl
  | dropped receiver =>
      cases sent
      exact iff_of_true nofun nofun
  | _ => cases sent

variable [DecidableEq σ] {addr : κ → σ}

theorem Framed.broadcast {chat next : Chat κ σ ε} (framed : chat.Framed) {said : Said κ}
    (free : crlf.Free said.name ∧ crlf.Free said.message)
    (sent : chat.broadcast addr said = some next) : next.Framed := by
  have moved := fun k => task_of_broadcast
    (P := fun task => ∀ peer, task = .peer peer → crlf.Free peer.name) named_of_unboundedSend sent k
  refine ⟨fun k => (moved k).1.mpr (framed.names k), fun other among => ?_⟩
  obtain ⟨tasks, -, rfl⟩ := Option.map_eq_some_iff.mp sent
  rcases List.mem_append.mp among with before | now
  · exact framed.log other before
  · rw [List.mem_singleton.mp now]
    exact free

theorem Framed.step {chat next : Chat κ σ ε} {action : Action κ ε} (framed : chat.Framed)
    (stepped : chat.step? addr action = some next) : next.Framed := by
  cases acts stepped with
  | accepted incoming absent => exact framed.setTask _ nofun
  | failed waiting polls => exact framed.setTask _ nofun
  | waits waiting polls => exact framed.setTask _ nofun
  | left waiting polls => exact framed.setTask _ nofun
  | @joined k lines after name waiting polls =>
      have joined : (chat.setTask k
          (.peer ⟨name, after, [], .idle, false, chat.log.length⟩)).Framed := by
        refine framed.setTask k ?_
        rintro _ ⟨⟩
        exact Lines.free_of_polled polls
      exact ⟨joined.names, joined.log⟩
  | polled live started => exact framed.setPeer live (Peer.kept_start started).name
  | received live received => exact framed.setPeer live (Peer.kept_receive received).name
  | flushed live flushed => exact framed.setPeer live (Peer.kept_flush flushed).name
  | read live read => exact framed.setPeer live (Peer.kept_read read).name
  | said live read sent =>
      refine (framed.setPeer live (Peer.kept_read read).name).broadcast ⟨?_, ?_⟩ sent
      · exact framed.names _ _ live
      · cases Peer.reads read with
        | line turn polls => exact Lines.free_of_polled polls
  | @dropped k peer live =>
      have dropped : (chat.setTask k (.dropped peer)).Framed := framed.setTask k nofun
      exact ⟨dropped.names, dropped.log⟩
  | released gone => exact framed.setTask _ nofun

theorem framed_of_run {history : List (Action κ ε)} {chat : Chat κ σ ε}
    (run : (system addr).run? history = some chat) : chat.Framed :=
  (system addr).invariant Framed ⟨nofun, nofun⟩
    (fun _ _ _ framed stepped => framed.step stepped) run

/-! ## Names -/

theorem followed_of_run {history : List (Action κ ε)} {chat : Chat κ σ ε}
    (run : (system addr).run? history = some chat) (k : κ) : Followed history chat k :=
  (system addr).run?_induction (motive := fun history chat => Followed history chat k)
    (.waiting rfl rfl fun _ => List.not_mem_nil)
    (fun _ _ _ _ _ followed stepped => followed.step stepped) run

theorem log_of_step? {chat next : Chat κ σ ε} {action : Action κ ε}
    (stepped : chat.step? addr action = some next) :
    next.log = chat.log ∨ ∃ k peer message, action = .read k ∧ chat.tasks k = .peer peer ∧
      peer.position ≠ .finished ∧ next.log = chat.log ++ [⟨k, peer.name, message⟩] := by
  cases acts stepped with
  | @said k peer after message _ live read sent =>
      obtain ⟨tasks, -, rfl⟩ := Option.map_eq_some_iff.mp sent
      rcases Peer.read_cases read with ⟨⟨⟩, _⟩ | ⟨line, _, _, unfinished, _⟩
      exact Or.inr ⟨k, peer, message, rfl, live, unfinished, rfl⟩
  | _ => exact Or.inl rfl

theorem name_of_run {history : List (Action κ ε)} {chat : Chat κ σ ε}
    (run : (system addr).run? history = some chat) :
    ∀ said ∈ chat.log, ∀ incoming, .accept said.sender incoming ∈ history →
      (Lines.new ⟨incoming, []⟩).collect.1.head? = some said.name := by
  refine (system addr).run?_induction (motive := fun history chat => ∀ said ∈ chat.log,
    ∀ incoming, .accept said.sender incoming ∈ history →
      (Lines.new ⟨incoming, []⟩).collect.1.head? = some said.name) nofun ?_ run
  intro earlier middle action next reached named stepped said among incoming accepted
  have before : said ∈ middle.log → .accept said.sender incoming ∈ earlier := by
    intro early
    rcases List.mem_append.mp accepted with still | last
    · exact still
    · -- who is accepted only now has not said anything
      have accepts : middle.step? addr (.accept said.sender incoming) = some next := by
        rw [List.mem_singleton.mp last]
        exact stepped
      cases acts accepts with
      | accepted _ absent =>
          cases followed_of_run reached said.sender with
          | told other only tells => exact absurd absent tells.accepted
          | waiting _ silent _ =>
              have spoken : said.message ∈ saidBy middle.log said.sender :=
                List.mem_map.mpr ⟨said, List.mem_filter.mpr ⟨early, decide_eq_true rfl⟩, rfl⟩
              rw [silent] at spoken
              cases spoken
  rcases log_of_step? stepped with same | ⟨k, peer, message, rfl, live, unfinished, grown⟩
  · rw [same] at among
    exact named said among incoming (before among)
  · rw [grown] at among
    rcases List.mem_append.mp among with early | last
    · exact named said early incoming (before early)
    · cases List.mem_singleton.mp last
      rcases List.mem_append.mp accepted with still | other
      · rw [(tells_of_run reached still).peer peer live unfinished]
        rfl
      · cases List.mem_singleton.mp other

omit [DecidableEq σ] in
theorem map_fst_heard {log : List (Said κ)} {k : κ} {since : Nat} (within : since ≤ log.length) :
    (heard log k since).map Prod.fst = (log.drop since).filter fun said => said.sender ≠ k := by
  induction log using List.reverseRecOn with
  | nil => rw [heard, List.drop_nil]; rfl
  | append_singleton log said ih =>
      rw [List.length_append, List.length_singleton] at within
      rcases Nat.le_or_eq_of_le_succ within with earlier | now
      · rw [List.drop_append_of_le_length earlier, List.filter_append, ← ih earlier]
        by_cases own : said.sender = k
        · rw [heard_own own]
          simp [own]
        · rw [heard_other own earlier]
          simp [own]
      · have all : since = (log ++ [said]).length := by
          rw [now, List.length_append, List.length_singleton]
        rw [all, heard_now, List.drop_length]
        rfl

omit [DecidableEq σ] in
/-- What a peer heard of another one is a stretch of what that one said. -/
theorem stretch_heard {log : List (Said κ)} {j k : κ} {since : Nat} (within : since ≤ log.length) :
    saidBy ((heard log k since).map Prod.fst) j <:+: saidBy log j := by
  rw [map_fst_heard within, saidBy, List.filter_filter]
  by_cases own : j = k
  · subst own
    have none : (log.drop since).filter (fun said => decide (said.sender = j) &&
        decide (said.sender ≠ j)) = [] := by
      refine List.filter_eq_nil_iff.mpr fun said _ => ?_
      simp
    rw [none]
    exact List.nil_infix
  · have same : (log.drop since).filter (fun said => decide (said.sender = j) &&
        decide (said.sender ≠ k)) = (log.drop since).filter fun said => said.sender = j := by
      refine List.filter_congr fun said _ => ?_
      by_cases here : said.sender = j
      · simp [here, own]
      · simp [here]
    rw [same]
    exact (((List.drop_suffix since log).filter _).map _).isInfix

/--
From socket to socket.  While the live peers have distinct addresses, all that
has been sent to a peer reads as one line for each message that it heard, with
the name of the sender in front, and what its socket has accepted so far reads
as the first of these lines.  The messages that it heard of another connection
are a stretch of the lines which the socket of that connection yields behind
its first line, and that line is the name.
-/
theorem socket_to_socket {history : List (Action κ ε)} {chat : Chat κ σ ε}
    (run : (system addr).run? history = some chat)
    (distinct : (system addr).Always (DistinctAddresses addr) history) {k : κ} {peer : Peer ε}
    (live : chat.tasks k = .peer peer) :
    let spoken := (heard chat.log k peer.since).map Prod.fst
    let lines := spoken.map fun said => said.name ++ separator ++ said.message
    crlf.pieces peer.held = (lines, []) ∧
      (crlf.pieces peer.lines.socket.accepted).1 <+: lines ∧
      (∀ said ∈ spoken, said.sender ≠ k) ∧
      ∀ j incoming, .accept j incoming ∈ history →
        saidBy spoken j <:+: (Lines.new ⟨incoming, []⟩).collect.1.tail ∧
          ∀ said ∈ spoken, said.sender = j →
            (Lines.new ⟨incoming, []⟩).collect.1.head? = some said.name := by
  intro spoken lines
  have consistent := consistent_of_run run distinct
  have within := consistent.since_le k peer live
  have fromLog : spoken = (chat.log.drop peer.since).filter fun said => said.sender ≠ k :=
    map_fst_heard within
  have among : ∀ said ∈ spoken, said ∈ chat.log ∧ said.sender ≠ k := by
    intro said held
    rw [fromLog] at held
    obtain ⟨behind, other⟩ := List.mem_filter.mp held
    exact ⟨List.mem_of_mem_drop behind, of_decide_eq_true other⟩
  have whole : crlf.pieces peer.held = (lines, []) := by
    refine Terminator.Split.pieces_eq ⟨?_, ?_, Terminator.free_nil⟩
    · rw [consistent.held k peer live, List.append_nil, List.map_map, List.map_map]
      rfl
    · intro line there
      obtain ⟨said, held, rfl⟩ := List.mem_map.mp there
      have free := (framed_of_run run).log said (among said held).1
      exact free_named free.1 free.2
  refine ⟨whole, ?_, fun said held => (among said held).2, fun j incoming accepted => ⟨?_, ?_⟩⟩
  · have all : peer.held = peer.lines.socket.accepted ++ (peer.lines.wr ++ peer.rx.flatten) :=
      List.append_assoc _ _ _
    have first : (crlf.pieces peer.lines.socket.accepted).1 <+: (crlf.pieces peer.held).1 := by
      rw [all]
      exact Terminator.pieces_prefix _ _
    rw [whole] at first
    exact first
  · exact (stretch_heard within).trans (tells_of_run run accepted).begins.isInfix
  · rintro said held rfl
    exact name_of_run run said (among said held).1 incoming accepted

theorem socket_to_socket_partial_write :
    ∃ chat peer, (system (id : Nat → Nat)).run? twoPeers = some chat ∧
      chat.tasks 2 = .peer peer ∧ crlf.pieces peer.held = ([[97, 58, 32, 120]], []) :=
  ⟨_, _, rfl, rfl, (@socket_to_socket Nat Nat Unit _ _ id twoPeers _ rfl
    (fun _ _ _ _ => distinctAddresses_of_injective Function.injective_id _) 2 _ rfl).1⟩

end Chat

end RustDemo.ChatNew
