import Mathlib.Data.Fintype.Basic
import RustDemo.Chat.Ordering
import RustDemo.Console.World

/-!
# Connections

The world of bytes is a run of sessions and server.  As long as every JSON text
fits a frame, neither end of a connection loses the frames: a session handles
the requests of its client, and a client reads the responses of its session,
each once and in order, whatever pieces the bytes arrive in.
-/

namespace RustDemo.Console

open RustDemo.Chat RustDemo.Stream RustDemo.Text RustDemo.Transition

variable {ρ ε : Type}

/-- What a client writes and its session reads. -/
def requestCodec (json : Json ε ChatRequest) (roundTrips : json.RoundTrips) :
    Codec UInt8 ε ChatRequest where
  decoder := ChatCodec.decoder json
  encode msg := LengthPrefixed.frame (json.toString msg)
  Fits msg := (json.toString msg).length ≤ 65535
  reads msg fits rest := by
    have read := LengthPrefixed.decode_frame json.fromSlice fits rest
    rw [roundTrips msg] at read
    exact read

/-- What a session writes and its client reads. -/
def responseCodec (json : Json ε ChatResponse) (roundTrips : json.RoundTrips) :
    Codec UInt8 ε ChatResponse where
  decoder := ClientChatCodec.decoder json
  encode msg := LengthPrefixed.frame (json.toString msg)
  Fits msg := (json.toString msg).length ≤ 65535
  reads msg fits rest := by
    have read := LengthPrefixed.decode_frame json.fromSlice fits rest
    rw [roundTrips msg] at read
    exact read

theorem foldl_encode {α : Type} (text : α → List UInt8) (msgs : List α) (flight : List UInt8) :
    msgs.foldl (fun dst msg =>
        (LengthPrefixed.encode (text msg) dst : Except ε Unit × List UInt8).2) flight =
      flight ++ msgs.flatMap fun msg => LengthPrefixed.frame (text msg) := by
  induction msgs generalizing flight with
  | nil => exact (List.append_nil flight).symm
  | cons msg msgs ih =>
      rw [List.foldl_cons, ih, LengthPrefixed.encode_eq, List.flatMap_cons, List.append_assoc]

section Refinement

variable [DecidableEq ρ]

def takenIn (a : ρ) (history : List (Label ρ)) : List ChatRequest :=
  history.filterMap fun label =>
    match label with
    | .session b (.request request _) => if b = a then some request else none
    | _ => none

theorem takenIn_append (a : ρ) (first second : List (Label ρ)) :
    takenIn a (first ++ second) = takenIn a first ++ takenIn a second :=
  List.filterMap_append

theorem takenIn_other (a : ρ) {label : Label ρ} (other : World.FromDecoder label = false) :
    takenIn a [label] = [] := by
  cases label with
  | serve b draw => rfl
  | session b input =>
      cases input with
      | request request now => cases other
      | _ => rfl

namespace World

variable {clients : ρ → ChatClient} {requests : Json ε ChatRequest}
  {responses : Json ε ChatResponse} {world next : World ρ} {event : Event ρ} {a : ρ}

/-- All that an event can do, as the sessions and the server see it. -/
inductive Stepped (clients : ρ → ChatClient) (requests : Json ε ChatRequest)
    (responses : Json ε ChatResponse) (world : World ρ) : Event ρ → World ρ → Prop where
  | command {a : ρ} (msg : String) :
      Stepped clients requests responses world (.command a msg)
        (world.command clients requests a msg)
  | heartbeat {a : ρ} :
      Stepped clients requests responses world (.heartbeat a) (world.ask requests a [.ping])
  | arriveUp {a : ρ} (n : Nat) :
      Stepped clients requests responses world (.arriveUp a n)
        (world.setUp a ((world.up a).arrive n))
  | arriveDown {a : ρ} (n : Nat) :
      Stepped clients requests responses world (.arriveDown a n)
        (world.setDown a ((world.down a).arrive n))
  | request {a : ρ} {now : Nat} {request : ChatRequest} {rest : List UInt8} {chat : State ρ}
      (decoded : ChatCodec.decode requests (world.up a).buffer = (.ok (some request), rest))
      (stepped : world.chat.step? (.session a (.request request now)) = some chat) :
      Stepped clients requests responses world (.request a now)
        { (world.encoded responses chat).setUp a { world.up a with buffer := rest } with
          taken := Function.update world.taken a (world.taken a ++ [request]) }
  | badRequest {a : ρ} {now : Nat} {failure : ε} {rest : List UInt8} {chat : State ρ}
      (decoded : ChatCodec.decode requests (world.up a).buffer = (.error failure, rest))
      (stepped : world.chat.step? (.session a .finished) = some chat) :
      Stepped clients requests responses world (.request a now)
        ((world.encoded responses chat).setUp a { world.up a with buffer := rest })
  | response {a : ρ} {response : ChatResponse} {rest : List UInt8}
      (decoded : ClientChatCodec.decode responses (world.down a).buffer = (.ok (some response), rest)) :
      Stepped clients requests responses world (.response a)
        ((world.setDown a { world.down a with buffer := rest }).print a [.response response] false)
  | badResponse {a : ρ} {failure : ε} {rest : List UInt8}
      (decoded : ClientChatCodec.decode responses (world.down a).buffer = (.error failure, rest)) :
      Stepped clients requests responses world (.response a)
        ((world.setDown a { world.down a with buffer := rest }).print a [.notice "Disconnected"] true)
  | hangUp {a : ρ} :
      Stepped clients requests responses world (.hangUp a)
        (world.print a [.notice "Disconnected"] true)
  | other {label : Label ρ} {chat : State ρ} (other : FromDecoder label = false)
      (stepped : world.chat.step? label = some chat) :
      Stepped clients requests responses world (.other label) (world.encoded responses chat)

theorem stepped_of_step? (stepped : world.step? clients requests responses event = some next) :
    Stepped clients requests responses world event next := by
  cases event with
  | command a msg =>
      rw [step?] at stepped
      split at stepped <;> cases stepped
      exact .command msg
  | heartbeat a =>
      rw [step?] at stepped
      split at stepped <;> cases stepped
      exact .heartbeat
  | arriveUp a n =>
      cases stepped
      exact .arriveUp n
  | arriveDown a n =>
      cases stepped
      exact .arriveDown n
  | request a now =>
      rw [step?, World.request] at stepped
      split at stepped
      · cases stepped
      · rename_i decoded
        obtain ⟨chat, moved, rfl⟩ := Option.map_eq_some_iff.mp stepped
        exact .request decoded moved
      · rename_i decoded
        obtain ⟨chat, moved, rfl⟩ := Option.map_eq_some_iff.mp stepped
        exact .badRequest decoded moved
  | response a =>
      rw [step?, World.response] at stepped
      split at stepped
      · cases stepped
      · split at stepped <;> cases stepped
        · rename_i decoded
          exact .response decoded
        · rename_i decoded
          exact .badResponse decoded
  | hangUp a =>
      rw [step?] at stepped
      split at stepped <;> cases stepped
      exact .hangUp
  | other label =>
      rw [step?] at stepped
      split at stepped
      · cases stepped
      · rename_i other
        obtain ⟨chat, moved, rfl⟩ := Option.map_eq_some_iff.mp stepped
        exact .other (Bool.eq_false_iff.mpr other) moved

/-- The sessions and the server make this run, with the requests that they took. -/
def Refines (world : World ρ) (labels : List (Label ρ)) : Prop :=
  (State.system ρ).run? labels = some world.chat ∧ ∀ a, takenIn a labels = world.taken a

theorem Refines.step {labels : List (Label ρ)} (refines : world.Refines labels)
    {label : Label ρ} {chat : State ρ} (stepped : world.chat.step? label = some chat) :
    (State.system ρ).run? (labels ++ [label]) = some chat := by
  rw [(State.system ρ).run?_snoc, refines.1]
  exact stepped

theorem refines_step {labels : List (Label ρ)} (refines : world.Refines labels)
    (stepped : world.step? clients requests responses event = some next) :
    ∃ more, next.Refines (labels ++ more) := by
  have still : next.chat = world.chat → next.taken = world.taken →
      ∃ more, next.Refines (labels ++ more) := by
    intro chat taken
    refine ⟨[], ?_⟩
    rw [List.append_nil, Refines, chat, taken]
    exact refines
  cases stepped_of_step? stepped with
  | @request a now request rest chat decoded moved =>
      refine ⟨[.session a (.request request now)], refines.step moved, fun b => ?_⟩
      rw [takenIn_append, refines.2]
      by_cases own : a = b
      · subst own
        simp [takenIn]
      · simp [takenIn, own, Function.update_of_ne (Ne.symm own)]
  | @badRequest a now failure rest chat decoded moved =>
      refine ⟨[.session a .finished], refines.step moved, fun b => ?_⟩
      rw [takenIn_append, refines.2]
      exact List.append_nil _
  | @other label chat other moved =>
      refine ⟨[label], refines.step moved, fun b => ?_⟩
      rw [takenIn_append, refines.2, takenIn_other b other]
      exact List.append_nil _
  | _ => exact still rfl rfl

theorem exists_refines {history : List (Event ρ)}
    (run : (system clients requests responses).run? history = some world) :
    ∃ labels, world.Refines labels :=
  (system clients requests responses).invariant (fun world => ∃ labels, world.Refines labels)
    ⟨[], rfl, fun _ => rfl⟩
    (fun _ _ _ ⟨labels, refines⟩ stepped =>
      have ⟨more, further⟩ := refines_step refines stepped
      ⟨labels ++ more, further⟩) run

end World

/-! ## Connections that stay intact -/

theorem written_of_step? {state next : State ρ} {label : Label ρ}
    (stepped : state.step? label = some next) (b : ρ) :
    (state.node b).written <+: (next.node b).written := by
  cases label with
  | serve a draw => exact (State.written_of_serve stepped b).symm ▸ List.prefix_rfl
  | session a input =>
      obtain ⟨after, moved, rfl⟩ := Option.map_eq_some_iff.mp stepped
      by_cases own : b = a
      · subst own
        obtain ⟨frames, written, -⟩ := writes_of_step? moved
        exact ⟨frames, by simpa using written.symm⟩
      · simp only [Function.update_of_ne own]
        exact List.prefix_rfl

namespace World

variable {clients : ρ → ChatClient} {requests : Json ε ChatRequest}
  {responses : Json ε ChatResponse} {world next : World ρ} {event : Event ρ} {a : ρ}

/--
Each end has read the first messages that the other one wrote, and the
connection carries the others.
-/
structure Intact (requests : Json ε ChatRequest) (responses : Json ε ChatResponse)
    (asks : requests.RoundTrips) (answers : responses.RoundTrips) (world : World ρ) : Prop where
  up : ∀ a, ∃ pending, (world.client a).asked = world.taken a ++ pending ∧
    (world.up a).Carries (requestCodec requests asks) pending
  down : ∀ a, ∃ pending, State.responses (world.chat.node a).written =
    (world.client a).read ++ pending ∧
      (world.down a).Carries (responseCodec responses answers) pending

/-- Every JSON text that was written has at most 65535 bytes. -/
def Short (requests : Json ε ChatRequest) (responses : Json ε ChatResponse) (world : World ρ) :
    Prop :=
  ∀ a, (∀ request ∈ (world.client a).asked, (requests.toString request).length ≤ 65535) ∧
    ∀ response ∈ State.responses (world.chat.node a).written,
      (responses.toString response).length ≤ 65535

instance [Fintype ρ] (world : World ρ) : Decidable (world.Short requests responses) :=
  inferInstanceAs (Decidable (∀ _, _ ∧ _))

omit [DecidableEq ρ] in
theorem Short.of_prefix (short : next.Short requests responses)
    (asked : ∀ a, (world.client a).asked <+: (next.client a).asked)
    (written : ∀ a, (world.chat.node a).written <+: (next.chat.node a).written) :
    world.Short requests responses := fun a =>
  ⟨fun request among => (short a).1 request ((asked a).subset among),
    fun response among => (short a).2 response (((written a).filterMap _).subset among)⟩

theorem asked_prefix_ask (asked : List ChatRequest) (b : ρ) :
    (world.client b).asked <+: ((world.ask requests a asked).client b).asked := by
  by_cases own : b = a
  · subst own
    simp only [World.ask, Function.update_self]
    exact List.prefix_append _ _
  · simp only [World.ask, Function.update_of_ne own]
    exact List.prefix_rfl

theorem asked_print (output : List Output) (stopped : Bool) (b : ρ) :
    ((world.print a output stopped).client b).asked = (world.client b).asked := by
  by_cases own : b = a
  · subst own
    simp only [World.print, Function.update_self]
  · simp only [World.print, Function.update_of_ne own]

/-- What was written before a step is short if what was written after it is. -/
theorem Short.before (short : next.Short requests responses)
    (stepped : world.step? clients requests responses event = some next) :
    world.Short requests responses := by
  cases stepped_of_step? stepped with
  | command msg =>
      refine short.of_prefix (fun b => ?_) fun _ => List.prefix_rfl
      rw [World.command, asked_print]
      exact asked_prefix_ask _ b
  | heartbeat => exact short.of_prefix (asked_prefix_ask _) fun _ => List.prefix_rfl
  | request decoded moved => exact short.of_prefix (fun _ => List.prefix_rfl) (written_of_step? moved)
  | badRequest decoded moved =>
      exact short.of_prefix (fun _ => List.prefix_rfl) (written_of_step? moved)
  | response decoded =>
      exact short.of_prefix (fun b => (asked_print _ _ b).symm ▸ List.prefix_rfl)
        fun _ => List.prefix_rfl
  | badResponse decoded =>
      exact short.of_prefix (fun b => (asked_print _ _ b).symm ▸ List.prefix_rfl)
        fun _ => List.prefix_rfl
  | hangUp =>
      exact short.of_prefix (fun b => (asked_print _ _ b).symm ▸ List.prefix_rfl)
        fun _ => List.prefix_rfl
  | other other moved => exact short.of_prefix (fun _ => List.prefix_rfl) (written_of_step? moved)
  | _ => exact short

variable {asks : requests.RoundTrips} {answers : responses.RoundTrips}

namespace Intact

theorem ask (intact : world.Intact requests responses asks answers) {asked : List ChatRequest}
    (fits : ∀ request ∈ asked, (requests.toString request).length ≤ 65535) :
    (world.ask requests a asked).Intact requests responses asks answers where
  up b := by
    by_cases own : b = a
    · subst own
      obtain ⟨pending, read, carries⟩ := intact.up b
      refine ⟨pending ++ asked, ?_, ?_⟩
      · simp only [World.ask, Function.update_self, read, List.append_assoc]
      · simp only [World.ask, Function.update_self]
        exact carries.write fits (foldl_encode requests.toString asked _)
    · simpa only [World.ask, Function.update_of_ne own] using intact.up b
  down b := by
    obtain ⟨pending, read, carries⟩ := intact.down b
    refine ⟨pending, ?_, carries⟩
    rw [show (world.ask requests a asked).chat = world.chat from rfl, read]
    by_cases own : b = a
    · subst own
      simp only [World.ask, Function.update_self, Client.read]
    · simp only [World.ask, Function.update_of_ne own]

/-- What is printed for a response is taken from those that were to come. -/
theorem print (intact : world.Intact requests responses asks answers) {down : Pipe UInt8}
    {output : List Output} (stopped : Bool)
    (reads : ∀ pending, (world.down a).Carries (responseCodec responses answers) pending →
      ∃ later, pending = (Client.mk false output []).read ++ later ∧
        down.Carries (responseCodec responses answers) later) :
    ((world.setDown a down).print a output stopped).Intact requests responses asks answers where
  up b := by
    by_cases own : b = a
    · subst own
      simpa only [World.print, World.setDown, Function.update_self] using intact.up b
    · simpa only [World.print, World.setDown, Function.update_of_ne own] using intact.up b
  down b := by
    obtain ⟨pending, read, carries⟩ := intact.down b
    by_cases own : b = a
    · subst own
      obtain ⟨later, rfl, remains⟩ := reads pending carries
      refine ⟨later, ?_, ?_⟩
      · rw [show ((world.setDown b down).print b output stopped).chat = world.chat from rfl, read]
        simp only [World.print, World.setDown, Function.update_self, Client.read,
          List.filterMap_append, List.append_assoc]
      · simpa only [World.print, World.setDown, Function.update_self] using remains
    · refine ⟨pending, ?_, ?_⟩
      · simpa only [World.print, World.setDown, Function.update_of_ne own] using read
      · simpa only [World.print, World.setDown, Function.update_of_ne own] using carries

theorem notice (intact : world.Intact requests responses asks answers) (texts : List String)
    (stopped : Bool) :
    (world.print a (texts.map .notice) stopped).Intact requests responses asks answers := by
  have same : world.setDown a (world.down a) = world := by
    rw [World.setDown, Function.update_eq_self]
  have silent : (Client.mk false (texts.map .notice) []).read = [] := by
    simp [Client.read, List.filterMap_map]
  rw [← same]
  refine intact.print stopped fun pending carries => ⟨pending, ?_, ?_⟩
  · rw [silent]
    rfl
  · exact carries

theorem encoded (intact : world.Intact requests responses asks answers) {label : Label ρ}
    {chat : State ρ} (stepped : world.chat.step? label = some chat)
    (fits : ∀ b, ∀ response ∈ State.responses (chat.node b).written,
      (responses.toString response).length ≤ 65535) :
    (world.encoded responses chat).Intact requests responses asks answers where
  up := intact.up
  down b := by
    obtain ⟨pending, read, carries⟩ := intact.down b
    obtain ⟨frames, written⟩ := written_of_step? stepped b
    have short : ∀ response ∈ State.responses frames,
        (responses.toString response).length ≤ 65535 := by
      intro response among
      refine fits b response ?_
      rw [← written, State.responses, List.filterMap_append]
      exact List.mem_append_right _ among
    have behind : (chat.node b).written.drop (world.chat.node b).written.length = frames := by
      rw [← written, List.drop_left]
    refine ⟨pending ++ State.responses frames, ?_, ?_⟩
    · rw [show (world.encoded responses chat).chat = chat from rfl, ← written]
      rw [State.responses, List.filterMap_append, ← List.append_assoc]
      exact congrArg (· ++ State.responses frames) read
    · rw [show (world.encoded responses chat).down b = { world.down b with
          flight := (State.responses frames).foldl
            (fun dst msg => (ChatCodec.encode responses msg dst).2) (world.down b).flight } by
        rw [← behind]; rfl]
      exact carries.write short (foldl_encode responses.toString _ _)

theorem take (intact : world.Intact requests responses asks answers) {request : ChatRequest}
    {rest : List UInt8}
    (decoded : ChatCodec.decode requests (world.up a).buffer = (.ok (some request), rest)) :
    ({ world.setUp a { world.up a with buffer := rest } with
        taken := Function.update world.taken a (world.taken a ++ [request]) } : World ρ).Intact
      requests responses asks answers where
  up b := by
    obtain ⟨pending, asked, carries⟩ := intact.up b
    by_cases own : b = a
    · subst own
      obtain ⟨msg, later, rfl, found, remains⟩ := carries.decided decoded nofun
      cases found
      refine ⟨later, ?_, ?_⟩
      · simp only [World.setUp, Function.update_self, asked, List.append_assoc,
          List.singleton_append]
      · simpa only [World.setUp, Function.update_self] using remains
    · refine ⟨pending, ?_, ?_⟩
      · simpa only [World.setUp, Function.update_of_ne own] using asked
      · simpa only [World.setUp, Function.update_of_ne own] using carries
  down := intact.down

theorem arriveUp (intact : world.Intact requests responses asks answers) (n : Nat) :
    (world.setUp a ((world.up a).arrive n)).Intact requests responses asks answers where
  up b := by
    obtain ⟨pending, asked, carries⟩ := intact.up b
    refine ⟨pending, asked, ?_⟩
    by_cases own : b = a
    · subst own
      simpa only [World.setUp, Function.update_self] using carries.arrive n
    · simpa only [World.setUp, Function.update_of_ne own] using carries
  down := intact.down

theorem arriveDown (intact : world.Intact requests responses asks answers) (n : Nat) :
    (world.setDown a ((world.down a).arrive n)).Intact requests responses asks answers where
  up := intact.up
  down b := by
    obtain ⟨pending, read, carries⟩ := intact.down b
    refine ⟨pending, read, ?_⟩
    by_cases own : b = a
    · subst own
      simpa only [World.setDown, Function.update_self] using carries.arrive n
    · simpa only [World.setDown, Function.update_of_ne own] using carries

omit [DecidableEq ρ] in
theorem no_error (intact : world.Intact requests responses asks answers) (a : ρ) (failure : ε) :
    (ChatCodec.decode requests (world.up a).buffer).1 ≠ .error failure ∧
      (ClientChatCodec.decode responses (world.down a).buffer).1 ≠ .error failure := by
  obtain ⟨_, _, up⟩ := intact.up a
  obtain ⟨_, _, down⟩ := intact.down a
  exact ⟨up.no_error failure, down.no_error failure⟩

theorem step (intact : world.Intact requests responses asks answers)
    (short : next.Short requests responses)
    (stepped : world.step? clients requests responses event = some next) :
    next.Intact requests responses asks answers := by
  cases stepped_of_step? stepped with
  | @command a msg =>
      refine Intact.notice (intact.ask fun request among => (short a).1 request ?_) _ false
      rw [World.command, asked_print]
      simp only [World.ask, Function.update_self]
      exact List.mem_append_right _ among
  | @heartbeat a =>
      refine intact.ask fun request among => (short a).1 request ?_
      simp only [World.ask, Function.update_self]
      exact List.mem_append_right _ among
  | arriveUp n => exact intact.arriveUp n
  | arriveDown n => exact intact.arriveDown n
  | request decoded moved =>
      exact (intact.encoded moved fun b => (short b).2).take decoded
  | badRequest decoded moved =>
      exact absurd (congrArg Prod.fst decoded) (intact.no_error _ _).1
  | response decoded =>
      refine intact.print false fun pending carries => ?_
      obtain ⟨msg, later, rfl, found, remains⟩ := carries.decided decoded nofun
      cases found
      exact ⟨later, rfl, remains⟩
  | badResponse decoded => exact absurd (congrArg Prod.fst decoded) (intact.no_error _ _).2
  | hangUp => exact intact.notice ["Disconnected"] true
  | other other moved => exact intact.encoded moved fun b => (short b).2

end Intact

omit [DecidableEq ρ] in
theorem intact_new : (new : World ρ).Intact requests responses asks answers where
  up _ := ⟨[], rfl, Pipe.carries_empty⟩
  down _ := ⟨[], rfl, Pipe.carries_empty⟩

theorem intact_of_run {history : List (Event ρ)}
    (run : (system clients requests responses).run? history = some world)
    (short : world.Short requests responses) : world.Intact requests responses asks answers := by
  revert short
  refine (system clients requests responses).run?_induction (motive := fun _ world =>
    world.Short requests responses → world.Intact requests responses asks answers)
    (fun _ => intact_new) ?_ run
  intro earlier middle event next _ ih stepped short
  exact (ih (short.before stepped)).step short stepped

def Drained (json : Json ε ChatRequest) (pipe : Pipe UInt8) : Prop :=
  pipe.flight = [] ∧ (ChatCodec.decoder json).Waiting pipe.buffer

/--
Connections.  In every run in which all that is written is short, the sessions and the
server make a run of their own.  Each session has handled the first requests of
its client, all of them once the connection is drained, each client has read the
first responses of its session, and no decoder finds an error.
-/
theorem connections_intact (asks : requests.RoundTrips) (answers : responses.RoundTrips)
    {history : List (Event ρ)}
    (run : (system clients requests responses).run? history = some world)
    (short : world.Short requests responses) :
    ∃ labels, (State.system ρ).run? labels = some world.chat ∧ ∀ a,
      takenIn a labels <+: (world.client a).asked ∧
        (Drained requests (world.up a) → takenIn a labels = (world.client a).asked) ∧
        (world.client a).read <+: State.responses (world.chat.node a).written ∧
        ∀ failure, (ChatCodec.decode requests (world.up a).buffer).1 ≠ .error failure ∧
          (ClientChatCodec.decode responses (world.down a).buffer).1 ≠ .error failure := by
  obtain ⟨labels, reaches, taken⟩ := exists_refines run
  have intact : world.Intact requests responses asks answers := intact_of_run run short
  refine ⟨labels, reaches, fun a => ?_⟩
  obtain ⟨pending, asked, carries⟩ := intact.up a
  obtain ⟨later, written, -⟩ := intact.down a
  rw [taken a]
  refine ⟨⟨pending, asked.symm⟩, fun drained => ?_, ⟨later, written.symm⟩, intact.no_error a⟩
  have nothing := carries.eq_nil_of_waiting drained.1 drained.2
  rw [asked, nothing, List.append_nil]

/-- Two clients connect; one of them types a line, and the other one prints it. -/
def hello : List (Event Bool) :=
  [.other (.session true (.start .tcp 0)), .other (.serve true 5), .other (.session true .reply),
    .other (.session false (.start .tcp 0)), .other (.serve false 7), .other (.session false .reply),
    .command true "hi\n", .arriveUp true 9, .arriveUp true 90, .request true 1,
    .other (.serve true 0), .other (.session false .deliver), .arriveDown false 90, .response false]

theorem connections_intact_hello :
    ∃ world, (system (fun _ => .client) compactRequests compactResponses).run? hello = some world ∧
      (world.client true).asked = [.message "hi"] ∧
      (world.client false).read <+: State.responses (world.chat.node false).written := by
  have ran : ((system (fun _ => .client) compactRequests compactResponses).run? hello).any
      (fun world => decide (world.Short compactRequests compactResponses) &&
        decide ((world.client true).asked = [.message "hi"])) := by
    decide +kernel
  obtain ⟨world, run, holds⟩ := (Option.any_eq_true _ _).mp ran
  simp only [Bool.and_eq_true, decide_eq_true_eq] at holds
  obtain ⟨_, -, intact⟩ := connections_intact compactRequests_roundTrips compactResponses_roundTrips
    run holds.1
  exact ⟨world, run, holds.2, (intact false).2.2.1⟩

end World

end Refinement

end RustDemo.Console
