import RustDemo.ChatNew.Broadcast

/-!
# What a peer says

The name of a peer and the messages that it has broadcast are the lines that its
socket yields, in order: what it has not said yet is still to be yielded.
-/

namespace RustDemo.ChatNew

open RustDemo.Collections RustDemo.Transition

namespace Lines

variable {ε : Type}

theorem collect_of_error {lines after : Lines ε} {failure : ε}
    (polls : lines.poll = (.error failure, after)) : lines.collect = ([], some failure) := by
  rw [collect]
  split <;> rename_i other <;> cases polls.symm.trans other
  rfl

theorem poll_congr {lines other after : Lines ε} {result : Except ε (Async (Option Bytes))}
    (rd : lines.rd = other.rd) (incoming : lines.socket.incoming = other.socket.incoming)
    (polls : lines.poll = (result, after)) :
    ∃ otherAfter, other.poll = (result, otherAfter) ∧ after.rd = otherAfter.rd ∧
      after.socket.incoming = otherAfter.socket.incoming := by
  obtain ⟨filled, later, buffer, read⟩ : ∃ filled later rd,
      readBuf other.rd other.socket.incoming = (filled, later, rd) := ⟨_, _, _, rfl⟩
  simp only [poll, fillReadBuf, rd, incoming, read] at polls ⊢
  cases filled with
  | error failure =>
      cases polls
      exact ⟨_, rfl, rfl, rfl⟩
  | ok closed =>
      dsimp only at polls ⊢
      split at polls
      · cases polls
        exact ⟨_, rfl, rfl, rfl⟩
      · split at polls <;> cases polls
        · exact ⟨_, rfl, rfl, rfl⟩
        · exact ⟨_, rfl, rfl, rfl⟩

theorem collect_congr {lines other : Lines ε} (rd : lines.rd = other.rd)
    (incoming : lines.socket.incoming = other.socket.incoming) : lines.collect = other.collect := by
  induction lines using collect.induct generalizing other with
  | case1 lines line after polls shorter ih =>
      obtain ⟨otherAfter, otherPolls, rdAfter, incomingAfter⟩ := poll_congr rd incoming polls
      rw [collect_of_line polls, collect_of_line otherPolls, ih rdAfter incomingAfter]
  | case2 lines after polls =>
      obtain ⟨otherAfter, otherPolls, _⟩ := poll_congr rd incoming polls
      rw [collect_of_closed polls, collect_of_closed otherPolls]
  | case3 lines after polls shorter ih =>
      obtain ⟨otherAfter, otherPolls, rdAfter, incomingAfter⟩ := poll_congr rd incoming polls
      rw [collect_of_notReady polls, collect_of_notReady otherPolls, ih rdAfter incomingAfter]
  | case4 lines failure after polls =>
      obtain ⟨otherAfter, otherPolls, _⟩ := poll_congr rd incoming polls
      rw [collect_of_error polls, collect_of_error otherPolls]

end Lines

namespace Peer

variable {ε : Type} {peer after : Peer ε}

/-- The step takes no line; a peer that goes on has all before it that it had. -/
structure Silent (peer after : Peer ε) : Prop where
  name : after.name = peer.name
  goes : after.position ≠ .finished →
    peer.position ≠ .finished ∧ after.lines.collect = peer.lines.collect

theorem unfinished_of_eq {position : Position} (turn : peer.position = position)
    (goes : position ≠ .finished) : peer.position ≠ .finished := by
  rw [turn]
  exact goes

theorem silent_start (started : peer.start = some after) : peer.Silent after := by
  obtain ⟨idle, rfl⟩ := starts started
  exact ⟨rfl, fun _ => ⟨unfinished_of_eq idle nofun, rfl⟩⟩

theorem silent_receive (received : peer.receive = some after) : peer.Silent after := by
  cases receives received with
  | line turn queued =>
      exact ⟨rfl, fun _ => ⟨unfinished_of_eq turn nofun, Lines.collect_congr rfl rfl⟩⟩
  | last turn queued limit =>
      exact ⟨rfl, fun _ => ⟨unfinished_of_eq turn nofun, Lines.collect_congr rfl rfl⟩⟩
  | none turn queued => exact ⟨rfl, fun _ => ⟨unfinished_of_eq turn nofun, rfl⟩⟩

theorem collect_flushRound {lines flushed : Lines ε} {event : WriteEvent ε}
    {result : Option (Except ε (Async Unit))} (round : lines.FlushRound event result flushed) :
    flushed.collect = lines.collect := by
  cases round with
  | wrote positive within => exact Lines.collect_congr rfl rfl
  | flushed empty => rfl
  | notReady unsent => rfl
  | error unsent => rfl

theorem silent_flush {event : WriteEvent ε} (flushed : peer.flush event = some after) :
    peer.Silent after := by
  cases flushes flushed with
  | again turn round =>
      exact ⟨rfl, fun _ => ⟨unfinished_of_eq turn nofun, collect_flushRound round⟩⟩
  | done turn round =>
      exact ⟨rfl, fun _ => ⟨unfinished_of_eq turn nofun, collect_flushRound round⟩⟩
  | failed turn round => exact ⟨rfl, fun goes => absurd rfl goes⟩

/-- A read without a message is silent, one with a message takes the next line. -/
theorem read_cases {message : Option Bytes} (read : peer.read = some (after, message)) :
    (message = none ∧ peer.Silent after) ∨
      ∃ line, message = some line ∧ after.name = peer.name ∧ peer.position ≠ .finished ∧
        peer.lines.collect.1 = line :: after.lines.collect.1 := by
  cases reads read with
  | error turn polls => exact Or.inl ⟨rfl, rfl, fun goes => absurd rfl goes⟩
  | notReady turn polls =>
      exact Or.inl ⟨rfl, rfl,
        fun _ => ⟨unfinished_of_eq turn nofun, (Lines.collect_of_notReady polls).symm⟩⟩
  | closed turn polls => exact Or.inl ⟨rfl, rfl, fun goes => absurd rfl goes⟩
  | line turn polls =>
      exact Or.inr ⟨_, rfl, rfl, unfinished_of_eq turn nofun, by rw [Lines.collect_of_line polls]⟩

end Peer

/-! ## What a connection has said -/

namespace Chat

variable {κ σ ε : Type} [DecidableEq κ]

/-- The messages that the connection has broadcast. -/
def saidBy (log : List (Said κ)) (k : κ) : List Bytes :=
  (log.filter fun said => said.sender = k).map Said.message

theorem saidBy_own {log : List (Said κ)} {said : Said κ} {k : κ} (own : said.sender = k) :
    saidBy (log ++ [said]) k = saidBy log k ++ [said.message] := by
  simp [saidBy, own]

theorem saidBy_other {log : List (Said κ)} {said : Said κ} {k : κ} (other : said.sender ≠ k) :
    saidBy (log ++ [said]) k = saidBy log k := by
  simp [saidBy, other]

/-- The lines that a socket yields, as far as they were said and as they are still to come. -/
structure Tells (whole said : List Bytes) (task : Task ε) : Prop where
  begins : said <+: whole.tail
  accepted : task ≠ .absent
  naming : ∀ lines, task = .naming lines → said = [] ∧ lines.collect.1 = whole
  peer : ∀ peer, task = .peer peer → peer.position ≠ .finished →
    whole = peer.name :: (said ++ peer.lines.collect.1)

theorem tells_of_unboundedSend {whole said : List Bytes} {line : Bytes} (task next : Task ε)
    (sent : task.unboundedSend line = some next) : Tells whole said next ↔ Tells whole said task := by
  cases task with
  | peer receiver =>
      cases sent
      constructor
      · rintro ⟨begins, _, _, peer⟩
        refine ⟨begins, nofun, nofun, ?_⟩
        rintro _ ⟨⟩ goes
        have all := peer _ rfl goes
        exact all
      · rintro ⟨begins, _, _, peer⟩
        refine ⟨begins, nofun, nofun, ?_⟩
        rintro _ ⟨⟩ goes
        have all := peer _ rfl goes
        exact all
  | dropped receiver =>
      cases sent
      constructor
      · rintro ⟨begins, _, _, _⟩
        exact ⟨begins, nofun, nofun, nofun⟩
      · rintro ⟨begins, _, _, _⟩
        exact ⟨begins, nofun, nofun, nofun⟩
  | absent => cases sent
  | naming lines => cases sent
  | done => cases sent

theorem absent_of_unboundedSend {line : Bytes} (task next : Task ε)
    (sent : task.unboundedSend line = some next) : next = .absent ↔ task = .absent := by
  cases task with
  | peer receiver =>
      cases sent
      exact iff_of_false nofun nofun
  | dropped receiver =>
      cases sent
      exact iff_of_false nofun nofun
  | absent => cases sent
  | naming lines => cases sent
  | done => cases sent

theorem Tells.ended {whole said : List Bytes} {task after : Task ε} (tells : Tells whole said task)
    (present : after ≠ .absent) (noName : ∀ lines, after ≠ .naming lines)
    (noPeer : ∀ peer, after ≠ .peer peer) : Tells whole said after :=
  ⟨tells.begins, present, fun lines here => absurd here (noName lines),
    fun peer here => absurd here (noPeer peer)⟩

theorem Tells.silent {whole said : List Bytes} {before after : Peer ε}
    (tells : Tells whole said (.peer before)) (silent : before.Silent after) :
    Tells whole said (.peer after) := by
  refine ⟨tells.begins, nofun, nofun, ?_⟩
  rintro _ ⟨⟩ goes
  obtain ⟨went, same⟩ := silent.goes goes
  rw [silent.name, same]
  exact tells.peer before rfl went

theorem Tells.speak {whole said : List Bytes} {before after : Peer ε} {line : Bytes}
    (tells : Tells whole said (.peer before)) (name : after.name = before.name)
    (unfinished : before.position ≠ .finished)
    (yields : before.lines.collect.1 = line :: after.lines.collect.1) :
    Tells whole (said ++ [line]) (.peer after) := by
  have all := tells.peer before rfl unfinished
  rw [yields, List.append_cons] at all
  refine ⟨?_, nofun, nofun, ?_⟩
  · rw [all]
    exact List.prefix_append _ _
  · rintro _ ⟨⟩ _
    rw [name]
    exact all

/-- The connection was not accepted yet, or it was accepted with the reads `incoming`. -/
inductive Followed (history : List (Action κ ε)) (chat : Chat κ σ ε) (k : κ) : Prop where
  | waiting (absent : chat.tasks k = .absent) (silent : saidBy chat.log k = [])
      (never : ∀ incoming, .accept k incoming ∉ history)
  | told (incoming : List (ReadEvent ε))
      (only : ∀ other, .accept k other ∈ history → other = incoming)
      (tells : Tells (Lines.new ⟨incoming, []⟩).collect.1 (saidBy chat.log k) (chat.tasks k))

theorem Followed.keep {history : List (Action κ ε)} {chat next : Chat κ σ ε} {action : Action κ ε}
    {k : κ} (followed : Followed history chat k) (other : ∀ incoming, action ≠ .accept k incoming)
    (log : saidBy next.log k = saidBy chat.log k)
    (absent : next.tasks k = .absent ↔ chat.tasks k = .absent)
    (tells : ∀ whole, Tells whole (saidBy chat.log k) (chat.tasks k) →
      Tells whole (saidBy chat.log k) (next.tasks k)) :
    Followed (history ++ [action]) next k := by
  have accepts : ∀ incoming, .accept k incoming ∈ history ++ [action] → .accept k incoming ∈ history := by
    intro incoming among
    rcases List.mem_append.mp among with earlier | last
    · exact earlier
    · exact absurd (List.mem_singleton.mp last).symm (other incoming)
  cases followed with
  | waiting isAbsent silent never =>
      exact .waiting (absent.mpr isAbsent) (log.trans silent) fun incoming among =>
        never incoming (accepts incoming among)
  | told accepted only told =>
      refine .told accepted (fun incoming among => only incoming (accepts incoming among)) ?_
      rw [log]
      exact tells _ told

variable [DecidableEq σ] {addr : κ → σ}

theorem task_of_broadcast {chat next : Chat κ σ ε} {said : Said κ} {P : Task ε → Prop}
    (pushes : ∀ task after, task.unboundedSend said.line = some after → (P after ↔ P task))
    (sent : chat.broadcast addr said = some next) (k : κ) :
    (P (next.tasks k) ↔ P (chat.tasks k)) ∧ next.log = chat.log ++ [said] := by
  obtain ⟨tasks, loop, rfl⟩ := Option.map_eq_some_iff.mp sent
  rw [sendToOthers_eq_sendAll] at loop
  exact ⟨sendAll_preserves pushes loop k, rfl⟩

omit [DecidableEq σ] in
theorem Followed.setTask {history : List (Action κ ε)} {chat : Chat κ σ ε} {action : Action κ ε}
    {j k : κ} {task : Task ε} (followed : Followed history chat k)
    (other : ∀ incoming, action ≠ .accept k incoming)
    (absent : j = k → (task = .absent ↔ chat.tasks k = .absent))
    (tells : j = k → ∀ whole, Tells whole (saidBy chat.log k) (chat.tasks k) →
      Tells whole (saidBy chat.log k) task) :
    Followed (history ++ [action]) (chat.setTask j task) k := by
  by_cases here : j = k
  · subst here
    refine followed.keep other rfl ?_ ?_
    · rw [setTask_self]
      exact absent rfl
    · rw [setTask_self]
      exact tells rfl
  · have same := chat.setTask_of_ne task (Ne.symm here)
    refine followed.keep other rfl ?_ ?_
    · rw [same]
    · rw [same]
      exact fun _ told => told

omit [DecidableEq σ] in
theorem Followed.advance {history : List (Action κ ε)} {chat : Chat κ σ ε} {action : Action κ ε}
    {j k : κ} {before after : Task ε} (followed : Followed history chat k)
    (other : ∀ incoming, action ≠ .accept k incoming) (stands : chat.tasks j = before)
    (present : before ≠ .absent) (still : after ≠ .absent)
    (tells : ∀ whole, Tells whole (saidBy chat.log j) before → Tells whole (saidBy chat.log j) after) :
    Followed (history ++ [action]) (chat.setTask j after) k := by
  subst stands
  refine followed.setTask other ?_ ?_
  · rintro rfl
    exact iff_of_false still present
  · rintro rfl
    exact tells

omit [DecidableEq σ] in
theorem Followed.registered {history : List (Action κ ε)} {chat : Chat κ σ ε} {k : κ}
    (followed : Followed history chat k) (peers : HashMap σ κ) :
    Followed history { chat with peers := peers } k := by
  cases followed with
  | waiting absent silent never => exact .waiting absent silent never
  | told incoming only tells => exact .told incoming only tells

omit [DecidableEq σ] in
theorem Followed.accept {history : List (Action κ ε)} {chat : Chat κ σ ε} {j k : κ}
    {incoming : List (ReadEvent ε)} (followed : Followed history chat k)
    (absent : chat.tasks j = .absent) :
    Followed (history ++ [.accept j incoming])
      (chat.setTask j (.naming (Lines.new ⟨incoming, []⟩))) k := by
  by_cases here : j = k
  · subst here
    cases followed with
    | told _ only tells => exact absurd absent tells.accepted
    | waiting _ silent never =>
        refine .told incoming (fun other among => ?_) ?_
        · rcases List.mem_append.mp among with earlier | last
          · exact absurd earlier (never other)
          · cases List.mem_singleton.mp last
            rfl
        · have quiet : saidBy (chat.setTask j (.naming (Lines.new ⟨incoming, []⟩))).log j = [] := silent
          rw [quiet, setTask_self]
          refine ⟨List.nil_prefix, nofun, ?_, nofun⟩
          rintro _ ⟨⟩
          exact ⟨rfl, rfl⟩
  · refine followed.setTask ?_ (fun same => absurd same here) fun same => absurd same here
    rintro _ ⟨⟩
    exact here rfl

omit [DecidableEq σ] in
theorem Followed.finish {history : List (Action κ ε)} {chat : Chat κ σ ε} {action : Action κ ε}
    {j k : κ} {before : Task ε} (followed : Followed history chat k)
    (other : ∀ incoming, action ≠ .accept k incoming) (stands : chat.tasks j = before)
    (present : before ≠ .absent) :
    Followed (history ++ [action]) (chat.setTask j .done) k :=
  followed.advance other stands present nofun fun _ tells => tells.ended nofun nofun nofun

omit [DecidableEq σ] in
theorem Followed.wait {history : List (Action κ ε)} {chat : Chat κ σ ε} {j k : κ}
    {lines after : Lines ε} (followed : Followed history chat k)
    (waiting : chat.tasks j = .naming lines) (polls : lines.poll = (.ok .notReady, after)) :
    Followed (history ++ [.name j]) (chat.setTask j (.naming after)) k := by
  refine followed.advance nofun waiting nofun nofun fun whole tells => ?_
  obtain ⟨quiet, all⟩ := tells.naming lines rfl
  refine ⟨tells.begins, nofun, ?_, nofun⟩
  rintro _ ⟨⟩
  exact ⟨quiet, by rw [← Lines.collect_of_notReady polls]; exact all⟩

theorem Followed.join {history : List (Action κ ε)} {chat : Chat κ σ ε} {j k : κ}
    {lines after : Lines ε} {name : Bytes} (followed : Followed history chat k)
    (waiting : chat.tasks j = .naming lines)
    (polls : lines.poll = (.ok (.ready (some name)), after)) :
    Followed (history ++ [.name j]) (chat.newPeer addr j name after) k := by
  have moved : Followed (history ++ [.name j])
      (chat.setTask j (.peer ⟨name, after, [], .idle, false, chat.log.length⟩)) k := by
    refine followed.advance nofun waiting nofun nofun fun whole tells => ?_
    obtain ⟨quiet, all⟩ := tells.naming lines rfl
    rw [Lines.collect_of_line polls] at all
    refine ⟨tells.begins, nofun, nofun, ?_⟩
    rintro _ ⟨⟩ _
    rw [quiet, ← all]
    rfl
  exact moved.registered _

omit [DecidableEq σ] in
theorem Followed.silent {history : List (Action κ ε)} {chat : Chat κ σ ε} {action : Action κ ε}
    {j k : κ} {before after : Peer ε} (followed : Followed history chat k)
    (other : ∀ incoming, action ≠ .accept k incoming) (live : chat.tasks j = .peer before)
    (silent : before.Silent after) :
    Followed (history ++ [action]) (chat.setTask j (.peer after)) k :=
  followed.advance other live nofun nofun fun _ tells => tells.silent silent

theorem Followed.said {history : List (Action κ ε)} {chat next : Chat κ σ ε} {j k : κ}
    {peer after : Peer ε} {message : Bytes} (followed : Followed history chat k)
    (live : chat.tasks j = .peer peer) (reads : peer.read = some (after, some message))
    (sent : (chat.setTask j (.peer after)).broadcast addr ⟨j, peer.name, message⟩ = some next) :
    Followed (history ++ [.read j]) next k := by
  rcases Peer.read_cases reads with ⟨taken, _⟩ | ⟨line, taken, name, unfinished, yields⟩
  · cases taken
  cases taken
  by_cases here : j = k
  · subst here
    cases followed with
    | waiting absent _ _ => cases live.symm.trans absent
    | told incoming only tells =>
        rw [live] at tells
        have spoken := tells.speak name unfinished yields
        rw [← chat.setTask_self j (.peer after)] at spoken
        have moved := task_of_broadcast
          (P := Tells (Lines.new ⟨incoming, []⟩).collect.1 (saidBy chat.log j ++ [message]))
          tells_of_unboundedSend sent j
        refine .told incoming (fun other among => only other ?_) ?_
        · rcases List.mem_append.mp among with earlier | last
          · exact earlier
          · cases List.mem_singleton.mp last
        · rw [moved.2, saidBy_own rfl]
          exact moved.1.mpr spoken
  · have same := chat.setTask_of_ne (.peer after) (Ne.symm here)
    have absent := task_of_broadcast (P := (· = .absent)) absent_of_unboundedSend sent k
    rw [same] at absent
    refine followed.keep nofun ?_ absent.1 fun whole tells => ?_
    · rw [absent.2]
      exact saidBy_other here
    · have moved := task_of_broadcast (P := Tells whole (saidBy chat.log k))
        tells_of_unboundedSend sent k
      rw [same] at moved
      exact moved.1.mpr tells

theorem Followed.drop {history : List (Action κ ε)} {chat : Chat κ σ ε} {j k : κ} {peer : Peer ε}
    (followed : Followed history chat k) (live : chat.tasks j = .peer peer) :
    Followed (history ++ [.drop j]) (chat.drop addr j peer) k := by
  have moved : Followed (history ++ [.drop j]) (chat.setTask j (.dropped peer)) k :=
    followed.advance nofun live nofun nofun fun _ tells => tells.ended nofun nofun nofun
  exact moved.registered _

theorem Followed.step {history : List (Action κ ε)} {chat next : Chat κ σ ε} {action : Action κ ε}
    {k : κ} (followed : Followed history chat k) (stepped : chat.step? addr action = some next) :
    Followed (history ++ [action]) next k := by
  cases acts stepped with
  | accepted incoming absent => exact followed.accept absent
  | failed waiting polls => exact followed.finish nofun waiting nofun
  | left waiting polls => exact followed.finish nofun waiting nofun
  | waits waiting polls => exact followed.wait waiting polls
  | joined waiting polls => exact followed.join waiting polls
  | polled live started => exact followed.silent nofun live (Peer.silent_start started)
  | received live received => exact followed.silent nofun live (Peer.silent_receive received)
  | flushed live flushed => exact followed.silent nofun live (Peer.silent_flush flushed)
  | read live reads =>
      rcases Peer.read_cases reads with ⟨_, silent⟩ | ⟨line, taken, _⟩
      · exact followed.silent nofun live silent
      · cases taken
  | said live reads sent => exact followed.said live reads sent
  | dropped live => exact followed.drop live
  | released gone => exact followed.finish nofun gone nofun

/--
In every run, for a connection that was accepted with some reads to come: what
it has broadcast is the beginning of what its socket yields behind the name.
-/
theorem tells_of_run {history : List (Action κ ε)} {chat : Chat κ σ ε}
    (run : (system addr).run? history = some chat) {k : κ} {incoming : List (ReadEvent ε)}
    (accepted : .accept k incoming ∈ history) :
    Tells (Lines.new ⟨incoming, []⟩).collect.1 (saidBy chat.log k) (chat.tasks k) := by
  have followed : Followed history chat k := by
    refine (system addr).run?_induction (motive := fun history chat => Followed history chat k)
      ?_ ?_ run
    · exact .waiting rfl rfl fun _ => List.not_mem_nil
    · intro earlier middle action next _ followed stepped
      exact followed.step stepped
  cases followed with
  | waiting absent silent never => exact absurd accepted (never incoming)
  | told other only tells =>
      cases only incoming accepted
      exact tells

end Chat

end RustDemo.ChatNew
