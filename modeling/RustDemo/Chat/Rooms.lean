import RustDemo.Chat.Protocol
import RustDemo.Chat.Responses

/-!
# The room directory

Rooms are "Main" and whatever somebody has joined.  A session is told that it
joined a room before the server has seen the join, but whatever it asks for
after that is behind the join in its queue.
-/

namespace RustDemo.Chat

open RustDemo.Collections RustDemo.Transition

namespace ChatServer

variable {ρ : Type}

def Joined (history : List (Nat × Request ρ)) (room : String) : Prop :=
  ∃ draw id, (draw, .join id room) ∈ history

theorem joined_snoc {history : List (Nat × Request ρ)} {draw : Nat} {request : Request ρ}
    {room : String} :
    Joined (history ++ [(draw, request)]) room ↔
      Joined history room ∨ ∃ id, request = .join id room := by
  constructor
  · rintro ⟨other, id, listed⟩
    rcases List.mem_append.mp listed with earlier | last
    · exact Or.inl ⟨other, id, earlier⟩
    · cases List.mem_singleton.mp last
      exact Or.inr ⟨id, rfl⟩
  · rintro (⟨other, id, earlier⟩ | ⟨id, rfl⟩)
    · exact ⟨other, id, List.mem_append_left _ earlier⟩
    · exact ⟨draw, id, List.mem_append_right _ List.mem_cons_self⟩

theorem mem_rooms_of_run {history : List (Nat × Request ρ)} {server : ChatServer ρ}
    (run : (system ρ).run? history = some server) (room : String) :
    room ∈ server.rooms ↔ room = "Main" ∨ Joined history room := by
  refine (system ρ).run?_induction (motive := fun history server =>
    room ∈ server.rooms ↔ room = "Main" ∨ Joined history room) ?_ ?_ run
  · change room ∈ (AList.singleton "Main" ∅ : HashMap String (HashSet Nat)) ↔ _
    rw [← AList.insert_empty, AList.mem_insert]
    constructor
    · rintro (here | nowhere)
      · exact Or.inl here
      · exact absurd nowhere (AList.notMem_empty room)
    · rintro (here | ⟨draw, id, listed⟩)
      · exact Or.inl here
      · cases listed
  · rintro earlier middle ⟨draw, request⟩ next _ ih stepped
    obtain ⟨out, handled, rfl⟩ := step?_eq_some.mp stepped
    rw [mem_rooms_of_handle handled, ih, joined_snoc, or_assoc]

end ChatServer

/-! ## What a session was told -/

section Session

variable {ρ : Type}

/-- The session wrote to its peer that it joined the room. -/
def Node.Told (node : Node ρ) (room : String) : Prop := .response (.joined room) ∈ node.written

/-- A phase in which no answer to a `ListRooms` is awaited or was given up. -/
def Phase.Calm : Phase ρ → Prop
  | .idle | .running | .waiting (.connect _) => True
  | _ => False

/--
When the server comes to a `ListRooms` of the queue, all the rooms the session
was told of are there, and it is the last one in the queue.
-/
def Covers (told : String → Prop) : (String → Prop) → List (Request ρ) → Prop
  | _, [] => True
  | rooms, request :: rest =>
      (request = .listRooms → .listRooms ∉ rest ∧ ∀ room, told room → rooms room) ∧
        Covers told (fun room => rooms room ∨ ∃ id, request = .join id room) rest

theorem covers_of_notMem {told rooms : String → Prop} {queue : List (Request ρ)}
    (silent : .listRooms ∉ queue) : Covers told rooms queue := by
  induction queue generalizing rooms with
  | nil => trivial
  | cons request rest ih =>
      obtain ⟨other, later⟩ := List.ne_and_not_mem_of_not_mem_cons silent
      exact ⟨fun here => absurd here.symm other, ih later⟩

theorem Covers.mono {told rooms more : String → Prop} {queue : List (Request ρ)}
    (covers : Covers told rooms queue) (grows : ∀ room, rooms room → more room) :
    Covers told more queue := by
  induction queue generalizing rooms more with
  | nil => trivial
  | cons request rest ih =>
      obtain ⟨here, later⟩ := covers
      refine ⟨fun asks => ⟨(here asks).1, fun room was => grows room ((here asks).2 room was)⟩,
        ih later ?_⟩
      rintro room (there | joins)
      · exact Or.inl (grows room there)
      · exact Or.inr joins

theorem Covers.append {told rooms : String → Prop} {queue requests : List (Request ρ)}
    (covers : Covers told rooms queue) (silent : .listRooms ∉ requests) :
    Covers told rooms (queue ++ requests) := by
  induction queue generalizing rooms with
  | nil => exact covers_of_notMem silent
  | cons request rest ih =>
      obtain ⟨here, later⟩ := covers
      refine ⟨fun asks => ⟨?_, (here asks).2⟩, ih later⟩
      intro listed
      exact (List.mem_append.mp listed).elim (here asks).1 silent

theorem covers_snoc_listRooms {told rooms : String → Prop} {queue : List (Request ρ)}
    (silent : .listRooms ∉ queue)
    (known : ∀ room, told room → rooms room ∨ ∃ id, .join id room ∈ queue) :
    Covers told rooms (queue ++ [.listRooms]) := by
  induction queue generalizing rooms with
  | nil =>
      refine ⟨fun _ => ⟨List.not_mem_nil, fun room was => ?_⟩, trivial⟩
      rcases known room was with there | ⟨id, listed⟩
      · exact there
      · cases listed
  | cons request rest ih =>
      obtain ⟨other, later⟩ := List.ne_and_not_mem_of_not_mem_cons silent
      refine ⟨fun here => absurd here.symm other, ih later fun room was => ?_⟩
      rcases known room was with there | ⟨id, listed⟩
      · exact Or.inl (Or.inl there)
      · rcases List.mem_cons.mp listed with first | deeper
        · exact Or.inl (Or.inr ⟨id, first.symm⟩)
        · exact Or.inr ⟨id, deeper⟩

/-- No list of rooms was written without a room that the peer was told of before. -/
def Truthful (written : List Frame) : Prop :=
  written.Pairwise fun earlier later => ∀ room names,
    earlier = .response (.joined room) → later = .response (.rooms names) → room ∈ names

/--
What a session was told of is known to the server or on its way there, and so
it is in every answer that is due, on its way or written.
-/
structure Informed (rooms : String → Prop) (node : Node ρ) : Prop where
  known : ∀ room, node.Told room → rooms room ∨ ∃ id, .join id room ∈ node.outbox
  covers : Covers node.Told rooms node.outbox
  calm : node.phase.Calm →
    .listRooms ∉ node.outbox ∧ ∀ names, node.reply ≠ some (.rooms names)
  answered : ∀ names, node.reply = some (.rooms names) →
    .listRooms ∉ node.outbox ∧ ∀ room, node.Told room → room ∈ names
  truthful : Truthful node.written

theorem informed_idle (rooms : String → Prop) : Informed rooms (Node.idle : Node ρ) where
  known _ told := by cases told
  covers := trivial
  calm _ := ⟨List.not_mem_nil, nofun⟩
  answered _ answer := by cases answer
  truthful := List.Pairwise.nil

section Step

variable {a : ρ} {rooms : String → Prop} {node after : Node ρ} {input : Input}

theorem perform_reply (node : Node ρ) (effects : List (Effect ρ)) :
    (node.perform effects).reply = node.reply := by
  induction effects generalizing node with
  | nil => rfl
  | cons effect effects ih => cases effect <;> rw [Node.perform, ih]

theorem reply_of_step? (stepped : node.step? a input = some after) :
    after.reply = node.reply ∨ after.reply = none := by
  cases Node.stepped_of_step? stepped with
  | reply waiting answered answer =>
      right
      unfold Node.answer at answer
      split at answer
      · cases answer
        exact perform_reply _ _
      · cases answer
        exact perform_reply _ _
      · cases answer
  | finished running => exact Or.inl rfl
  | disconnected actor alive => exact Or.inl rfl
  | _ => exact Or.inl (perform_reply _ _)

theorem told_of_writes (writes : Writes node input after) (room : String) :
    after.Told room ↔ node.Told room ∨ Due node input (.joined room) := by
  obtain ⟨frames, written, due⟩ := writes
  unfold Node.Told
  rw [written, List.mem_append, due (.joined room) nofun]

namespace Informed

/-- An answer that is written names every room that the session was told of. -/
theorem truthful_of_writes (informed : Informed rooms node) (writes : Writes node input after) :
    Truthful after.written := by
  obtain ⟨frames, written, due⟩ := writes
  unfold Truthful
  rw [written, List.pairwise_append]
  refine ⟨informed.truthful, ?_, ?_⟩
  · -- an input calls for one of the two responses only
    refine List.pairwise_of_forall_mem_list ?_
    rintro _ first _ second room names rfl rfl
    cases (due (.joined room) nofun).mp first
    cases (due (.rooms names) nofun).mp second
  · rintro _ earlier _ later room names rfl rfl
    cases (due (.rooms names) nofun).mp later with
    | rooms actor answer => exact (informed.answered names answer).2 room earlier

theorem quiet (informed : Informed rooms node) (writes : Writes node input after)
    (undue : ∀ room, ¬ Due node input (.joined room)) {requests : List (Request ρ)}
    (outbox : after.outbox = node.outbox ++ requests) (silent : .listRooms ∉ requests)
    (reply : after.reply = node.reply ∨ after.reply = none)
    (calm : after.phase.Calm → node.phase.Calm) : Informed rooms after := by
  have told : after.Told = node.Told := by
    funext room
    simp [told_of_writes writes, undue]
  have notAsked : .listRooms ∉ node.outbox → .listRooms ∉ after.outbox := by
    rw [outbox]
    exact fun before listed => (List.mem_append.mp listed).elim before silent
  have replied : ∀ names, after.reply = some (.rooms names) → node.reply = some (.rooms names) := by
    intro names answer
    rcases reply with same | none
    · exact same.symm.trans answer
    · cases none.symm.trans answer
  constructor
  · intro room was
    rw [told] at was
    rw [outbox]
    rcases informed.known room was with there | ⟨id, listed⟩
    · exact Or.inl there
    · exact Or.inr ⟨id, List.mem_append_left _ listed⟩
  · rw [told, outbox]
    exact informed.covers.append silent
  · intro quiet
    obtain ⟨before, unanswered⟩ := informed.calm (calm quiet)
    exact ⟨notAsked before, fun names answer => unanswered names (replied names answer)⟩
  · intro names answer
    rw [told]
    obtain ⟨before, named⟩ := informed.answered names (replied names answer)
    exact ⟨notAsked before, named⟩
  · exact informed.truthful_of_writes writes

theorem silent (informed : Informed rooms node) (writes : Writes node input after)
    (undue : ∀ room, ¬ Due node input (.joined room)) (outbox : after.outbox = node.outbox)
    (reply : after.reply = node.reply ∨ after.reply = none)
    (calm : after.phase.Calm → node.phase.Calm) : Informed rooms after := by
  refine informed.quiet writes undue ?_ List.not_mem_nil reply calm
  rw [outbox, List.append_nil]

theorem join (informed : Informed rooms node) {name : String} {now id : Nat}
    (writes : Writes node (.request (.join name) now) after) (running : node.phase = .running)
    (outbox : after.outbox = node.outbox ++ [.join id name]) (reply : after.reply = node.reply) :
    Informed rooms after := by
  obtain ⟨before, unanswered⟩ := informed.calm (by rw [running]; trivial)
  have notAsked : .listRooms ∉ after.outbox := by
    rw [outbox]
    simpa using before
  have stillUnanswered : ∀ names, after.reply ≠ some (.rooms names) := by
    rw [reply]
    exact unanswered
  constructor
  · intro room was
    rw [outbox]
    rcases (told_of_writes writes room).mp was with earlier | due
    · rcases informed.known room earlier with there | ⟨joiner, listed⟩
      · exact Or.inl there
      · exact Or.inr ⟨joiner, List.mem_append_left _ listed⟩
    · cases due
      exact Or.inr ⟨id, List.mem_append_right _ List.mem_cons_self⟩
  · exact covers_of_notMem notAsked
  · exact fun _ => ⟨notAsked, stillUnanswered⟩
  · exact fun names answer => absurd answer (stillUnanswered names)
  · exact informed.truthful_of_writes writes

theorem list (informed : Informed rooms node) {now : Nat}
    (writes : Writes node (.request .list now) after) (running : node.phase = .running)
    (waiting : after.phase = .waiting .listRooms)
    (outbox : after.outbox = node.outbox ++ [.listRooms]) (reply : after.reply = node.reply) :
    Informed rooms after := by
  obtain ⟨before, unanswered⟩ := informed.calm (by rw [running]; trivial)
  have told : after.Told = node.Told := by
    funext room
    have undue : ¬ Due node (.request .list now) (.joined room) := nofun
    simp [told_of_writes writes, undue]
  constructor
  · intro room was
    rw [told] at was
    rw [outbox]
    rcases informed.known room was with there | ⟨id, listed⟩
    · exact Or.inl there
    · exact Or.inr ⟨id, List.mem_append_left _ listed⟩
  · rw [told, outbox]
    exact covers_snoc_listRooms before informed.known
  · intro calm
    rw [waiting] at calm
    exact calm.elim
  · intro names answer
    rw [reply] at answer
    exact absurd answer (unanswered names)
  · exact informed.truthful_of_writes writes

theorem undue_reply (room : String) : ¬ Due node .reply (.joined room) := by
  rintro ⟨⟩

theorem listed (informed : Informed rooms node) (writes : Writes node .reply after)
    {names : List String} (answer : node.reply = some (.rooms names))
    (outbox : after.outbox = node.outbox) (reply : after.reply = none) : Informed rooms after := by
  have told : after.Told = node.Told := by
    funext room
    simp [told_of_writes writes, undue_reply room]
  have notAsked := (informed.answered names answer).1
  constructor
  · rw [told, outbox]
    exact informed.known
  · rw [outbox]
    exact covers_of_notMem notAsked
  · intro _
    rw [outbox, reply]
    exact ⟨notAsked, nofun⟩
  · intro others answered
    cases reply.symm.trans answered
  · exact informed.truthful_of_writes writes

theorem request (informed : Informed rooms node) {session : ChatSession}
    (actor : node.actor = .tcp session) (running : node.phase = .running) (now : Nat)
    (request : ChatRequest) :
    Informed rooms ({ node with actor := .tcp (session.handle (ρ := ρ) now request).1 }.perform
      (session.handle now request).2) := by
  have writes := writes_request actor now request
  cases request with
  | list => exact informed.list writes running rfl rfl rfl
  | join name => exact informed.join writes running rfl rfl
  | message message =>
      exact informed.quiet writes nofun rfl (by simp) (Or.inl rfl) id
  | ping => exact informed.silent writes nofun rfl (Or.inl rfl) id

theorem frame (informed : Informed rooms node) {session : WsChatSession}
    (running : node.phase = .running) (now : Nat) (message : WsMessage) :
    Informed rooms ({ node with actor := .ws (session.handle (ρ := ρ) now message).1 }.perform
      (session.handle now message).2) := by
  have writes := @writes_frame ρ node session now message
  have calm : node.phase.Calm := by rw [running]; trivial
  cases message with
  | ping bytes => exact informed.silent writes nofun rfl (Or.inl rfl) id
  | pong => exact informed.silent writes nofun rfl (Or.inl rfl) id
  | text text => exact informed.quiet writes nofun rfl (by simp) (Or.inl rfl) id
  | binary => exact informed.quiet writes nofun rfl (by simp) (Or.inl rfl) id
  | close => exact informed.silent writes nofun rfl (Or.inl rfl) fun _ => calm

theorem interval (informed : Informed rooms node) (running : node.phase = .running) (now : Nat) :
    Informed rooms (node.perform (node.actor.interval now)) := by
  have writes : Writes node (.interval now) _ := writes_interval now
  have calm : node.phase.Calm := by rw [running]; trivial
  obtain ⟨pings, -, quiet | departs⟩ := node.actor.interval_eq (ρ := ρ) now
  · rw [quiet, perform_writes] at writes ⊢
    exact informed.silent writes nofun rfl (Or.inl rfl) id
  · rw [departs, Node.perform, Node.perform, perform_writes] at writes ⊢
    exact informed.quiet writes nofun rfl (by simp) (Or.inl rfl) fun _ => calm

theorem answer (informed : Informed rooms node) {request : Request ρ} {reply : Reply}
    (waiting : node.phase = .waiting request) (answered : node.reply = some reply)
    (answer : node.answer request reply = some after) : Informed rooms after := by
  have writes := writes_reply answered answer
  cases reply with
  | unit => cases request <;> cases answer
  | id id =>
      cases request with
      | connect addr =>
          have quiet := (node.actor.connected_eq (ρ := ρ) id).1
          simp only [Node.answer, quiet, Option.some.injEq] at answer
          subst answer
          refine informed.silent writes undue_reply rfl (Or.inr rfl) fun _ => ?_
          rw [waiting]
          trivial
      | _ => cases answer
  | rooms names =>
      cases request with
      | listRooms =>
          obtain ⟨frames, listed⟩ := node.actor.listed_eq (ρ := ρ) names
          rw [Node.answer, listed, perform_writes] at answer
          cases answer
          exact informed.listed writes answered rfl rfl
      | _ => cases answer

theorem session (informed : Informed rooms node) (stepped : node.step? a input = some after) :
    Informed rooms after := by
  have writes := writes_of_step? stepped
  cases Node.stepped_of_step? stepped with
  | start idle kind now =>
      have calm : node.phase.Calm := by rw [idle]; trivial
      have outbox : (node.start a kind now).outbox = node.outbox ++ [.connect a] := by
        cases kind <;> rfl
      have reply : (node.start a kind now).reply = node.reply := by cases kind <;> rfl
      exact informed.quiet writes nofun outbox (by simp) (Or.inl reply) fun _ => calm
  | reply waiting answered answer => exact informed.answer waiting answered answer
  | request running actor request now => exact informed.request actor running now request
  | frame running actor message now => exact informed.frame running now message
  | @deliver text inbox running head =>
      obtain ⟨frame, written⟩ := node.actor.handleMessage_eq (ρ := ρ) text
      rw [written] at writes ⊢
      exact informed.silent writes nofun rfl (Or.inl rfl) id
  | interval running now => exact informed.interval running now
  | finished running => exact informed.silent writes nofun rfl (Or.inl rfl) nofun
  | disconnected actor alive => exact informed.silent writes nofun rfl (Or.inl rfl) nofun
  | stopping told =>
      rw [Actor.stopping_eq] at writes ⊢
      exact informed.quiet writes nofun rfl (by simp) (Or.inl rfl) nofun

theorem grows (informed : Informed rooms node) {more : String → Prop}
    (grows : ∀ room, rooms room → more room) (texts : List String) :
    Informed more (node.receive texts) where
  known room told := (informed.known room told).imp_left (grows room)
  covers := informed.covers.mono grows
  calm := informed.calm
  answered := informed.answered
  truthful := informed.truthful

theorem serve {server : ChatServer ρ} (informed : Informed (· ∈ server.rooms) node)
    {request : Request ρ} {rest : List (Request ρ)} (head : node.outbox = request :: rest)
    {draw : Nat} {out : Outcome ρ} (handled : server.handle draw request = some out) :
    Informed (· ∈ out.server.rooms) (node.served rest out.reply) := by
  have rooms := ChatServer.mem_rooms_of_handle handled
  have replied : ∀ names, (node.served rest out.reply).reply = some (.rooms names) →
      request = .listRooms ∧ names = server.rooms.keys ∨ node.reply = some (.rooms names) := by
    intro names answer
    rw [ChatServer.reply_of_handle handled] at answer
    cases request with
    | listRooms =>
        cases answer
        exact Or.inl ⟨rfl, rfl⟩
    | connect addr => cases answer
    | disconnect id => exact Or.inr answer
    | message id msg room => exact Or.inr answer
    | join id name => exact Or.inr answer
  have covers := informed.covers
  have calm := informed.calm
  have answered := informed.answered
  rw [head] at covers calm answered
  constructor
  · intro room told
    rw [rooms]
    rcases informed.known room told with there | ⟨id, listed⟩
    · exact Or.inl (Or.inl there)
    · rw [head] at listed
      rcases List.mem_cons.mp listed with first | later
      · exact Or.inl (Or.inr ⟨id, first.symm⟩)
      · exact Or.inr ⟨id, later⟩
  · exact covers.2.mono fun room there => (rooms room).mpr there
  · intro quiet
    obtain ⟨silent, unanswered⟩ := calm quiet
    obtain ⟨other, later⟩ := List.ne_and_not_mem_of_not_mem_cons silent
    refine ⟨later, fun names answer => ?_⟩
    rcases replied names answer with ⟨asks, -⟩ | before
    · exact other asks.symm
    · exact unanswered names before
  · intro names answer
    rcases replied names answer with ⟨asks, rfl⟩ | before
    · obtain ⟨last, there⟩ := covers.1 asks
      exact ⟨last, fun room told => AList.mem_keys.mp (there room told)⟩
    · obtain ⟨silent, named⟩ := answered names before
      exact ⟨(List.ne_and_not_mem_of_not_mem_cons silent).2, named⟩
  · exact informed.truthful

theorem skip (informed : Informed rooms node) {request : Request ρ} {rest : List (Request ρ)}
    (head : node.outbox = request :: rest)
    (awaited : request = .listRooms ∨ ∃ b, request = .connect b) :
    Informed rooms { node with outbox := rest } := by
  have notJoin : ∀ id room, request ≠ .join id room := by
    rintro id room rfl
    rcases awaited with same | ⟨b, same⟩ <;> cases same
  have covers := informed.covers
  have calm := informed.calm
  have answered := informed.answered
  rw [head] at covers calm answered
  constructor
  · intro room told
    rcases informed.known room told with there | ⟨id, listed⟩
    · exact Or.inl there
    · rw [head] at listed
      rcases List.mem_cons.mp listed with first | later
      · exact absurd first.symm (notJoin id room)
      · exact Or.inr ⟨id, later⟩
  · refine covers.2.mono fun room there => there.resolve_right ?_
    rintro ⟨id, joins⟩
    exact notJoin id room joins
  · intro quiet
    obtain ⟨silent, unanswered⟩ := calm quiet
    exact ⟨(List.ne_and_not_mem_of_not_mem_cons silent).2, unanswered⟩
  · intro names answer
    obtain ⟨silent, named⟩ := answered names answer
    exact ⟨(List.ne_and_not_mem_of_not_mem_cons silent).2, named⟩
  · exact informed.truthful

end Informed

end Step

end Session

namespace State

variable {ρ : Type} [DecidableEq ρ]

theorem informed_of_run {history : List (Label ρ)} {state : State ρ}
    (run : (system ρ).run? history = some state) (a : ρ) :
    Informed (· ∈ state.server.rooms) (state.node a) := by
  refine (system ρ).invariant
    (fun state => ∀ a, Informed (· ∈ state.server.rooms) (state.node a)) ?_ ?_ run a
  · exact fun _ => informed_idle _
  · intro state label next informed stepped b
    cases label with
    | session a input =>
        obtain ⟨node, moved, rfl⟩ := Option.map_eq_some_iff.mp stepped
        rcases eq_or_ne b a with rfl | other
        · simpa using (informed b).session moved
        · simpa [other] using informed b
    | serve a draw =>
        cases served_of_serve stepped with
        | skipped head stopped awaited =>
            rcases eq_or_ne b a with rfl | other
            · simpa using (informed b).skip head awaited
            · simpa [other] using informed b
        | @handled request rest out head handled present =>
            rcases eq_or_ne b a with rfl | other
            · simpa using ((informed b).serve head handled).grows (fun _ there => there) _
            · have kept : ∀ room, room ∈ state.server.rooms → room ∈ out.server.rooms :=
                fun room there => (ChatServer.mem_rooms_of_handle handled room).mpr (Or.inl there)
              simpa [other] using (informed b).grows kept _

/-- Every list of rooms that was written, or is on its way, has rooms that there are. -/
def ListsRooms (state : State ρ) : Prop :=
  ∀ a names, .response (.rooms names) ∈ (state.node a).written ∨
    (state.node a).reply = some (.rooms names) → ∀ room ∈ names, room ∈ state.server.rooms

theorem ListsRooms.session {state : State ρ} (lists : state.ListsRooms) {a : ρ} {input : Input}
    {after : Node ρ} (stepped : (state.node a).step? a input = some after) :
    ListsRooms { state with node := Function.update state.node a after } := by
  intro b names known
  by_cases own : b = a
  · subst own
    obtain ⟨frames, written, due⟩ := writes_of_step? stepped
    simp only [Function.update_self, written, List.mem_append] at known
    rcases known with (before | now) | answer
    · exact lists b names (Or.inl before)
    · cases (due (.rooms names) nofun).mp now with
      | rooms actor answer => exact lists b names (Or.inr answer)
    · rcases reply_of_step? stepped with same | gone
      · exact lists b names (Or.inr (same.symm.trans answer))
      · cases gone.symm.trans answer
  · simp only [Function.update_of_ne own] at known
    exact lists b names known

theorem ListsRooms.serve {state next : State ρ} (lists : state.ListsRooms) {a : ρ} {draw : Nat}
    (stepped : state.serve a draw = some next) : next.ListsRooms := by
  rcases served_of_serve stepped with
    ⟨head, stopped, awaited⟩ | @⟨request, rest, out, head, handled, present⟩
  · intro b names known
    by_cases own : b = a
    · subst own
      simp only [Function.update_self] at known
      exact lists b names known
    · simp only [Function.update_of_ne own] at known
      exact lists b names known
  · have kept : ∀ room, room ∈ state.server.rooms → room ∈ out.server.rooms :=
      fun room there => (ChatServer.mem_rooms_of_handle handled room).mpr (Or.inl there)
    intro b names known room among
    by_cases own : b = a
    · subst own
      simp only [Function.update_self, Node.receive, Node.served] at known
      rw [ChatServer.reply_of_handle handled] at known
      cases request with
      | listRooms =>
          rcases known with written | answer
          · exact kept room (lists b names (Or.inl written) room among)
          · cases answer
            exact kept room (AList.mem_keys.mp among)
      | connect addr =>
          rcases known with written | answer
          · exact kept room (lists b names (Or.inl written) room among)
          · cases answer
      | _ => exact kept room (lists b names known room among)
    · simp only [Function.update_of_ne own, Node.receive] at known
      exact kept room (lists b names known room among)

end State

/--
The room directory.  No sequence of requests makes a handler panic, and the
answer to `ListRooms` is "Main" and every room that somebody has joined, each
once.  In every interleaving the list of rooms that a session writes has every
room of which it wrote before that it joined it.
-/
theorem State.room_directory {ρ : Type} [DecidableEq ρ] (served : List (Nat × Request ρ))
    {history : List (Label ρ)} {state : State ρ} (run : (system ρ).run? history = some state) :
    (∃ server, (ChatServer.system ρ).run? served = some server ∧
      (∀ draw request, ∃ out, server.handle draw request = some out) ∧
      ∃ names, server.handleListRooms.reply = .rooms names ∧ names.Nodup ∧
        ∀ room, room ∈ names ↔ room = "Main" ∨ ChatServer.Joined served room) ∧
      ∀ a early names late, (state.node a).written = early ++ .response (.rooms names) :: late →
        ∀ room, .response (.joined room) ∈ early → room ∈ names := by
  constructor
  · obtain ⟨server, runs⟩ := ChatServer.run?_isSome served
    refine ⟨server, runs, ChatServer.handle_isSome (ChatServer.main_mem_rooms runs), _, rfl,
      server.rooms.keys_nodup, fun room => ?_⟩
    rw [← ChatServer.mem_rooms_of_run runs, AList.mem_keys]
  · intro a early names late written room told
    have truthful := (State.informed_of_run run a).truthful
    rw [Truthful, written, List.pairwise_append] at truthful
    exact truthful.2.2 _ told _ List.mem_cons_self room names rfl rfl

/-- A session joins a room and asks for the rooms before the server has seen the join. -/
def State.joinThenList : List (Label Nat) :=
  [.session 1 (.start .tcp 0), .serve 1 5, .session 1 .reply,
    .session 1 (.request (.join "Attic") 1), .session 1 (.request .list 2),
    .serve 1 0, .serve 1 0, .session 1 .reply]

theorem State.room_directory_join_then_list :
    ∃ state, (system Nat).run? joinThenList = some state ∧
      (state.node 1).written = [.response (.joined "Attic"), .response (.rooms ["Attic", "Main"])] ∧
      "Attic" ∈ ["Attic", "Main"] :=
  ⟨_, rfl, rfl, (@State.room_directory Nat _ [] joinThenList _ rfl).2 1
    [.response (.joined "Attic")] ["Attic", "Main"] [] rfl "Attic" List.mem_cons_self⟩

end RustDemo.Chat
