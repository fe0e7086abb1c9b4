import RustDemo.Chat.Acknowledgement

/-!
# The order of messages

A session sends its messages through one queue, the server handles them one
after another, and every session shows the texts of the server in the order of
its inbox.  So the messages of a sender stay in their order, and any two
sessions show what they both get in the same order.
-/

namespace RustDemo.Chat

open RustDemo.Text RustDemo.Transition

variable {ρ : Type}

def Input.message? : Input → Option String
  | .request (.message text) _ => some text
  | .frame (.text text) _ => some (trim text)
  | .frame .binary _ => some "binary"
  | _ => none

def messagesOf (requests : List (Request ρ)) : List String :=
  requests.filterMap fun request =>
    match request with
    | .message _ msg _ => some msg
    | _ => none

theorem messagesOf_append (first second : List (Request ρ)) :
    messagesOf (first ++ second) = messagesOf first ++ messagesOf second :=
  List.filterMap_append

section Record

variable [DecidableEq ρ]

/-- What the inputs of a session say, in a history of the whole system. -/
def said (a : ρ) (history : List (Label ρ)) : List String :=
  history.filterMap fun label =>
    match label with
    | .session b input => if b = a then input.message? else none
    | .serve _ _ => none

/-- The messages of a session that the server has handled. -/
def messagesBy (a : ρ) (handled : List (Handled ρ)) : List String :=
  messagesOf ((handled.filter fun entry => entry.sender = a).map Handled.request)

def saidBy (a : ρ) (handled : List (Handled ρ)) (delivery : Nat × String) : Bool :=
  match handled[delivery.1]? with
  | some ⟨sender, _, .message _ _ _, _⟩ => sender = a
  | _ => false

/-- The messages of the first session that were sent to the second. -/
def heardFrom (a b : ρ) (handled : List (Handled ρ)) : List String :=
  ((deliveries b handled).filter (saidBy a handled)).map Prod.snd

theorem said_snoc_self (a : ρ) (history : List (Label ρ)) (input : Input) :
    said a (history ++ [.session a input]) = said a history ++ input.message?.toList := by
  unfold said
  rw [List.filterMap_append]
  cases spoken : input.message? with
  | none => simp [spoken]
  | some text => simp [spoken]

theorem said_snoc_other {a b : ρ} (other : b ≠ a) (history : List (Label ρ)) (input : Input) :
    said a (history ++ [.session b input]) = said a history := by
  simp [said, List.filterMap_append, other]

theorem said_snoc_serve (a b : ρ) (history : List (Label ρ)) (draw : Nat) :
    said a (history ++ [.serve b draw]) = said a history := by
  simp [said, List.filterMap_append]

theorem messagesBy_snoc_self (a : ρ) (draw : Nat) (request : Request ρ) (sent : List (ρ × String))
    (handled : List (Handled ρ)) :
    messagesBy a (handled ++ [⟨a, draw, request, sent⟩]) =
      messagesBy a handled ++ messagesOf [request] := by
  simp [messagesBy, messagesOf_append]

theorem messagesBy_snoc_other {a b : ρ} (other : b ≠ a) (draw : Nat) (request : Request ρ)
    (sent : List (ρ × String)) (handled : List (Handled ρ)) :
    messagesBy a (handled ++ [⟨b, draw, request, sent⟩]) = messagesBy a handled := by
  simp [messagesBy, other]

end Record

/-- No peer of a websocket has a name. -/
def Node.Unnamed (node : Node ρ) : Prop := ∀ session, node.actor = .ws session → session.name = none

/-- The step sends the message that its input says, and no other. -/
structure Speaks (node : Node ρ) (input : Input) (after : Node ρ) : Prop where
  unnamed : after.Unnamed
  sends : ∃ requests, after.outbox = node.outbox ++ requests ∧
    messagesOf requests = input.message?.toList

section Step

variable {a : ρ} {node after : Node ρ} {input : Input}

theorem Speaks.silent (unnamed : after.Unnamed) (outbox : after.outbox = node.outbox)
    (quiet : input.message? = none) : Speaks node input after :=
  ⟨unnamed, [], by rw [outbox, List.append_nil], by rw [quiet]; rfl⟩

theorem Speaks.send (unnamed : after.Unnamed) {request : Request ρ}
    (outbox : after.outbox = node.outbox ++ [request])
    (spoken : messagesOf [request] = input.message?.toList) : Speaks node input after :=
  ⟨unnamed, [request], outbox, spoken⟩

theorem speaks_request {session : ChatSession} (now : Nat) (request : ChatRequest) :
    Speaks node (.request request now)
      ({ node with actor := .tcp (session.handle (ρ := ρ) now request).1 }.perform
        (session.handle now request).2) := by
  cases request with
  | list => exact .send nofun rfl rfl
  | join name => exact .send nofun rfl rfl
  | message text => exact .send nofun rfl rfl
  | ping => exact .silent nofun rfl rfl

theorem speaks_frame {session : WsChatSession} (unnamed : session.name = none) (now : Nat)
    (message : WsMessage) :
    Speaks node (.frame message now)
      ({ node with actor := .ws (session.handle (ρ := ρ) now message).1 }.perform
        (session.handle now message).2) := by
  have still : ∀ other, Actor.ws session = .ws other → other.name = none := by
    rintro _ ⟨⟩
    exact unnamed
  cases message with
  | ping bytes =>
      refine .silent ?_ rfl rfl
      rintro _ ⟨⟩
      exact unnamed
  | pong =>
      refine .silent ?_ rfl rfl
      rintro _ ⟨⟩
      exact unnamed
  | text text =>
      refine .send still rfl ?_
      simp [messagesOf, Input.message?, WsChatSession.relayed, unnamed]
  | binary => exact .send still rfl rfl
  | close => exact .silent still rfl rfl

theorem speaks_interval (unnamed : node.Unnamed) (now : Nat) :
    Speaks node (.interval now) (node.perform (node.actor.interval now)) := by
  obtain ⟨pings, -, quiet | departs⟩ := node.actor.interval_eq (ρ := ρ) now
  · rw [quiet, perform_writes]
    exact .silent unnamed rfl rfl
  · rw [departs, Node.perform, Node.perform, perform_writes]
    exact .send unnamed rfl rfl

theorem speaks_answer {request : Request ρ} {reply : Reply} (unnamed : node.Unnamed)
    (answer : node.answer request reply = some after) : Speaks node .reply after := by
  cases reply with
  | unit => cases request <;> cases answer
  | id id =>
      cases request with
      | connect addr =>
          obtain ⟨actor, _, _, _, _, _⟩ := node
          cases actor with
          | tcp session =>
              cases answer
              exact .silent nofun rfl rfl
          | ws session =>
              have same := unnamed session rfl
              cases answer
              refine .silent ?_ rfl rfl
              rintro _ ⟨⟩
              exact same
      | _ => cases answer
  | rooms names =>
      cases request with
      | listRooms =>
          obtain ⟨frames, writes⟩ := node.actor.listed_eq (ρ := ρ) names
          rw [Node.answer, writes, perform_writes] at answer
          cases answer
          exact .silent unnamed rfl rfl
      | _ => cases answer

theorem speaks_of_step? (unnamed : node.Unnamed) (stepped : node.step? a input = some after) :
    Speaks node input after := by
  cases Node.stepped_of_step? stepped with
  | start idle kind now =>
      cases kind with
      | tcp => exact .send nofun rfl rfl
      | ws =>
          refine .send ?_ rfl rfl
          rintro _ ⟨⟩
          rfl
  | reply waiting answered answer => exact speaks_answer unnamed answer
  | request running actor request now => exact speaks_request now request
  | frame running actor message now => exact speaks_frame (unnamed _ actor) now message
  | deliver running head =>
      obtain ⟨frame, writes⟩ := node.actor.handleMessage_eq (ρ := ρ) _
      rw [writes]
      exact .silent unnamed rfl rfl
  | interval running now => exact speaks_interval unnamed now
  | finished running => exact .silent unnamed rfl rfl
  | disconnected actor alive => exact .silent unnamed rfl rfl
  | stopping told =>
      rw [Actor.stopping_eq]
      exact .send unnamed rfl rfl

end Step

/-! ## One message after another -/

/-- Different elements of a list stand in its order, if that goes one way only. -/
theorem pair_sublist_iff {α : Type} {before : α → α → Prop} {items : List α}
    (ordered : items.Pairwise before) (oneWay : ∀ x y, before x y → before y x → x = y) {x y : α}
    (first : x ∈ items) (second : y ∈ items) (different : x ≠ y) :
    [x, y].Sublist items ↔ before x y := by
  constructor
  · exact fun pair => List.rel_of_pairwise_cons (ordered.sublist pair) List.mem_cons_self
  · intro goesFirst
    induction items with
    | nil => cases first
    | cons head items ih =>
        obtain ⟨least, later⟩ := List.pairwise_cons.mp ordered
        rcases List.mem_cons.mp first with rfl | firstLater
        · rcases List.mem_cons.mp second with rfl | secondLater
          · exact absurd rfl different
          · exact (List.singleton_sublist.mpr secondLater).cons_cons x
        · rcases List.mem_cons.mp second with rfl | secondLater
          · exact absurd (oneWay x y goesFirst (least x firstLater)) different
          · exact (ih later firstLater secondLater).cons head

/-- Where one request has two texts for a session, the farewell goes first. -/
def Precedes (first second : String) : Prop :=
  first = second ∨ first = "Someone disconnected" ∧ second = "Someone connected"

/-- The order of the texts for a session, each with the place of its request. -/
def Before (x y : Nat × String) : Prop := x.1 < y.1 ∨ x.1 = y.1 ∧ Precedes x.2 y.2

theorem eq_of_before (x y : Nat × String) (before : Before x y) (after : Before y x) : x = y := by
  obtain ⟨i, first⟩ := x
  obtain ⟨j, second⟩ := y
  rcases before with less | ⟨rfl, rfl | ⟨rfl, rfl⟩⟩
  · rcases after with more | ⟨rfl, -⟩
    · exact absurd less (Nat.lt_asymm more)
    · exact absurd less (Nat.lt_irrefl _)
  · rfl
  · rcases after with more | ⟨-, same | ⟨same, -⟩⟩
    · exact absurd more (Nat.lt_irrefl _)
    · exact congrArg (Prod.mk i) same.symm
    · cases (by decide : "Someone connected" ≠ "Someone disconnected") same

section Record

variable [DecidableEq ρ]

theorem ordered_snoc {a : ρ} {handled : List (Handled ρ)} {entry : Handled ρ}
    (ordered : (deliveries a handled).Pairwise Before)
    (texts : (State.textsFor a entry.sent).Pairwise Precedes) :
    (deliveries a (handled ++ [entry])).Pairwise Before := by
  rw [deliveries_snoc]
  refine List.pairwise_append.mpr ⟨ordered, ?_, ?_⟩
  · exact List.pairwise_map.mpr (texts.imp fun goesFirst => Or.inr ⟨rfl, goesFirst⟩)
  · rintro ⟨i, text⟩ earlier _ now
    obtain ⟨_, _, rfl⟩ := List.mem_map.mp now
    exact Or.inl (mem_deliveries earlier)

/-- Whatever two sessions make of their texts, what is in both has the same order in both. -/
theorem sublist_agree {b c : ρ} {handled : List (Handled ρ)}
    (ordered : ∀ d, (deliveries d handled).Pairwise Before) {here there : List (Nat × String)}
    (fromHere : here.Sublist (deliveries b handled))
    (fromThere : there.Sublist (deliveries c handled)) {x y : Nat × String} (firstHere : x ∈ here)
    (secondHere : y ∈ here) (firstThere : x ∈ there) (secondThere : y ∈ there)
    (different : x ≠ y) : [x, y].Sublist here ↔ [x, y].Sublist there := by
  have orderedHere := (ordered b).sublist fromHere
  have orderedThere := (ordered c).sublist fromThere
  rw [pair_sublist_iff orderedHere eq_of_before firstHere secondHere different,
    pair_sublist_iff orderedThere eq_of_before firstThere secondThere different]

theorem heardFrom_snoc (a b : ρ) (handled : List (Handled ρ)) (entry : Handled ρ) :
    heardFrom a b (handled ++ [entry]) = heardFrom a b handled ++
      if saidBy a [entry] (0, "") then State.textsFor b entry.sent else [] := by
  have before : (deliveries b handled).filter (saidBy a (handled ++ [entry])) =
      (deliveries b handled).filter (saidBy a handled) := by
    refine List.filter_congr fun delivery among => ?_
    rw [saidBy, saidBy, List.getElem?_append_left (mem_deliveries among)]
  have now : ∀ text, saidBy a (handled ++ [entry]) (handled.length, text) =
      saidBy a [entry] (0, "") := by
    intro text
    rw [saidBy, saidBy, List.getElem?_append_right (Nat.le_refl _), Nat.sub_self]
  rw [heardFrom, deliveries_snoc, List.filter_append, List.map_append, before, List.filter_map,
    heardFrom]
  congr 1
  have same : (saidBy a (handled ++ [entry]) ∘ fun text => (handled.length, text)) =
      fun _ => saidBy a [entry] (0, "") := funext now
  rw [same]
  cases saidBy a [entry] (0, "") with
  | true => simp [List.map_map, Function.comp_def]
  | false => simp

end Record

theorem textsFor_sublist [DecidableEq ρ] {sent : List (ρ × String)} {text : String}
    {chosen : ρ → Prop} (delivers : ChatServer.DeliversOnce sent text chosen) (b : ρ) :
    (State.textsFor b sent).Sublist [text] := by
  have same : ∀ other ∈ State.textsFor b sent, other = text := by
    intro other among
    obtain ⟨entry, listed, chosen⟩ := List.mem_filterMap.mp among
    split at chosen
    · cases chosen
      exact delivers.text entry listed
    · cases chosen
  have once : (State.textsFor b sent).Nodup := by
    refine delivers.nodup.filterMap fun first second third one other => ?_
    rw [Option.mem_def] at one other
    split at one
    · split at other
      · rename_i here there
        cases one
        exact Prod.ext (here.trans there.symm) (Option.some.inj other).symm
      · cases other
    · cases one
  cases held : State.textsFor b sent with
  | nil => exact List.nil_sublist _
  | cons first rest =>
      rw [held] at same once
      cases rest with
      | nil =>
          rw [same first List.mem_cons_self]
      | cons second rest =>
          have twice : first = second := (same first (by simp)).trans (same second (by simp)).symm
          rw [twice] at once
          exact absurd List.mem_cons_self (List.nodup_cons.mp once).1

def announcements : List String := ["Someone joined", "Someone connected", "Someone disconnected"]

/--
A handler sends one text, that of its message or an announcement; only a join
takes leave before it.
-/
theorem sent_of_handle {server : ChatServer ρ} {draw : Nat} {request : Request ρ} {out : Outcome ρ}
    (handled : server.handle draw request = some out) :
    ∃ farewell welcome text, out.sent = farewell ++ welcome ∧
      (∀ entry ∈ farewell, entry.2 = "Someone disconnected") ∧
      (∀ entry ∈ welcome, entry.2 = text) ∧
      (farewell = [] ∧ (text ∈ messagesOf [request] ∨ text ∈ announcements) ∨
        text = "Someone connected") := by
  cases request with
  | connect addr =>
      obtain ⟨main, -, rfl⟩ := ChatServer.handleConnect_eq_some handled
      refine ⟨[], _, "Someone joined", rfl, by simp, ?_, Or.inl ⟨rfl, Or.inr (by decide)⟩⟩
      exact fun _ sent => ((ChatServer.mem_sendMessage server _ _ _ _ _).mp sent).1
  | disconnect gone =>
      cases handled
      refine ⟨[], _, "Someone disconnected", rfl, by simp, ?_, Or.inl ⟨rfl, Or.inr (by decide)⟩⟩
      change ∀ entry ∈ (server.handleDisconnect gone).sent, _
      by_cases registered : gone ∈ server.sessions
      · rw [ChatServer.disconnect_sent registered]
        exact fun _ sent =>
          ((ChatServer.mem_farewell (fun _ => ChatServer.lookup_erase_of_ne) _ _).mp sent).1
      · unfold ChatServer.handleDisconnect
        rw [if_neg registered]
        exact fun _ sent => absurd sent List.not_mem_nil
  | message id msg room =>
      cases handled
      refine ⟨[], _, msg, rfl, by simp, ?_, Or.inl ⟨rfl, Or.inl List.mem_cons_self⟩⟩
      exact fun _ sent => ((ChatServer.mem_sendMessage server _ _ _ _ _).mp sent).1
  | listRooms =>
      cases handled
      exact ⟨[], [], "Someone joined", rfl, by simp, by simp, Or.inl ⟨rfl, Or.inr (by decide)⟩⟩
  | join id name =>
      obtain ⟨members, -, joined⟩ := server.handleJoin_eq id name
      cases joined.symm.trans handled
      refine ⟨_, _, "Someone connected", rfl, ?_, ?_, Or.inr rfl⟩
      · exact fun _ sent => ((ChatServer.mem_farewell (fun _ _ => rfl) _ _).mp sent).1
      · exact fun _ sent => ((ChatServer.mem_sendMessage _ _ _ _ _ _).mp sent).1

theorem text_of_sent {server : ChatServer ρ} {draw : Nat} {request : Request ρ} {out : Outcome ρ}
    (handled : server.handle draw request = some out) {b : ρ} {text : String}
    (sent : (b, text) ∈ out.sent) : text ∈ messagesOf [request] ∨ text ∈ announcements := by
  obtain ⟨farewell, welcome, one, parts, leaves, greets, kinds⟩ := sent_of_handle handled
  rw [parts] at sent
  rcases List.mem_append.mp sent with left | came
  · obtain rfl : text = "Someone disconnected" := leaves _ left
    exact Or.inr (by decide)
  · obtain rfl : text = one := greets _ came
    rcases kinds with ⟨-, either⟩ | rfl
    · exact either
    · exact Or.inr (by decide)

theorem mem_of_textsFor [DecidableEq ρ] {sent : List (ρ × String)} {b : ρ} {text : String}
    (among : text ∈ State.textsFor b sent) : (b, text) ∈ sent := by
  obtain ⟨⟨addr, other⟩, listed, chosen⟩ := List.mem_filterMap.mp among
  split at chosen
  · rename_i here
    cases chosen
    cases here
    exact listed
  · cases chosen

theorem textsFor_ordered [DecidableEq ρ] {server : ChatServer ρ} {draw : Nat} {request : Request ρ}
    {out : Outcome ρ} (handled : server.handle draw request = some out) (b : ρ) :
    (State.textsFor b out.sent).Pairwise Precedes := by
  obtain ⟨farewell, welcome, one, parts, leaves, greets, kinds⟩ := sent_of_handle handled
  have leaving : ∀ text ∈ State.textsFor b farewell, text = "Someone disconnected" :=
    fun text among => leaves _ (mem_of_textsFor among)
  have greeting : ∀ text ∈ State.textsFor b welcome, text = one :=
    fun text among => greets _ (mem_of_textsFor among)
  have split : State.textsFor b out.sent = State.textsFor b farewell ++ State.textsFor b welcome := by
    rw [parts]
    exact List.filterMap_append
  rw [split]
  refine List.pairwise_append.mpr ⟨?_, ?_, ?_⟩
  · exact List.pairwise_of_forall_mem_list fun first here second there =>
      Or.inl ((leaving first here).trans (leaving second there).symm)
  · exact List.pairwise_of_forall_mem_list fun first here second there =>
      Or.inl ((greeting first here).trans (greeting second there).symm)
  · intro first left second came
    rcases kinds with ⟨rfl, -⟩ | rfl
    · cases left
    · exact Or.inr ⟨leaving first left, greeting second came⟩

namespace State

variable [DecidableEq ρ]

/-- What was said is with the server, or on its way there, in the order in which it was said. -/
structure Sends (state : State ρ) (history : List (Label ρ)) : Prop where
  unnamed : ∀ a, (state.node a).Unnamed
  said : ∀ a, messagesBy a state.handled ++ messagesOf (state.node a).outbox = said a history
  heard : ∀ a b, (heardFrom a b state.handled).Sublist (messagesBy a state.handled)
  known : ∀ b i text, (i, text) ∈ deliveries b state.handled →
    (∃ a, text ∈ messagesBy a state.handled) ∨ text ∈ announcements
  ordered : ∀ b, (deliveries b state.handled).Pairwise Before

theorem sends_new : (new : State ρ).Sends [] where
  unnamed _ := nofun
  said _ := rfl
  heard _ _ := List.Sublist.refl _
  known _ _ _ := nofun
  ordered _ := .nil

theorem Sends.session {state : State ρ} {history : List (Label ρ)} (sends : state.Sends history)
    {a : ρ} {input : Input} {after : Node ρ} (stepped : (state.node a).step? a input = some after) :
    Sends { state with node := Function.update state.node a after }
      (history ++ [.session a input]) := by
  obtain ⟨unnamed, requests, outbox, spoken⟩ := speaks_of_step? (sends.unnamed a) stepped
  refine ⟨fun b => ?_, fun b => ?_, sends.heard, sends.known, sends.ordered⟩
  · by_cases own : b = a
    · subst own
      simpa using unnamed
    · simpa [Function.update_of_ne own] using sends.unnamed b
  · by_cases own : b = a
    · subst own
      rw [said_snoc_self, ← sends.said b, ← spoken, List.append_assoc, ← messagesOf_append, ← outbox]
      simp only [Function.update_self]
    · rw [said_snoc_other (Ne.symm own), ← sends.said b]
      simp only [Function.update_of_ne own]

theorem Sends.skip {state : State ρ} {history : List (Label ρ)} (sends : state.Sends history)
    {a : ρ} {request : Request ρ} {rest : List (Request ρ)}
    (head : (state.node a).outbox = request :: rest)
    (awaited : request = .listRooms ∨ ∃ b, request = .connect b) (draw : Nat) :
    Sends { state with node := Function.update state.node a { state.node a with outbox := rest } }
      (history ++ [.serve a draw]) := by
  refine ⟨fun b => ?_, fun b => ?_, sends.heard, sends.known, sends.ordered⟩
  · by_cases own : b = a
    · subst own
      simp only [Function.update_self]
      exact sends.unnamed b
    · simpa [Function.update_of_ne own] using sends.unnamed b
  · rw [said_snoc_serve, ← sends.said b]
    by_cases own : b = a
    · subst own
      simp only [Function.update_self, head]
      rcases awaited with rfl | ⟨c, rfl⟩ <;> rfl
    · simp only [Function.update_of_ne own]

theorem Sends.serve {state next : State ρ} {history : List (Label ρ)} (sends : state.Sends history)
    (distinct : state.server.RecipientsDistinct) {a : ρ} {draw : Nat}
    (stepped : state.serve a draw = some next) : next.Sends (history ++ [.serve a draw]) := by
  rcases served_of_serve stepped with
    ⟨head, stopped, awaited⟩ | @⟨request, rest, out, head, handled, present⟩
  · exact sends.skip head awaited draw
  refine ⟨fun b => ?_, fun b => ?_, fun b c => ?_, fun b i text delivered => ?_,
    fun b => ordered_snoc (sends.ordered b) (textsFor_ordered handled b)⟩
  · by_cases own : b = a
    · subst own
      simp only [Node.receive, Function.update_self]
      exact sends.unnamed b
    · simp only [Node.receive, Function.update_of_ne own]
      exact sends.unnamed b
  · rw [said_snoc_serve, ← sends.said b]
    by_cases own : b = a
    · subst own
      rw [messagesBy_snoc_self, head]
      simp only [Node.receive, Node.served, Function.update_self]
      rw [List.append_assoc, ← messagesOf_append]
      rfl
    · rw [messagesBy_snoc_other (Ne.symm own)]
      simp only [Node.receive, Function.update_of_ne own]
  · rw [heardFrom_snoc]
    by_cases own : a = b
    · subst own
      rw [messagesBy_snoc_self]
      refine (sends.heard a c).append ?_
      cases request with
      | message id msg room =>
          cases handled
          have delivers := ChatServer.sendMessage_deliversOnce distinct room msg id
          simpa [saidBy, messagesOf, ChatServer.handleMessage] using textsFor_sublist delivers c
      | _ => exact List.nil_sublist _
    · rw [messagesBy_snoc_other own]
      have silent : saidBy b [⟨a, draw, request, out.sent⟩] (0, "") = false := by
        cases request with
        | message id msg room => exact decide_eq_false own
        | _ => rfl
      rw [silent, if_neg Bool.false_ne_true, List.append_nil]
      exact sends.heard b c
  · have grows : ∀ other, text ∈ messagesBy other state.handled →
        text ∈ messagesBy other (state.handled ++ [⟨a, draw, request, out.sent⟩]) := by
      intro other among
      by_cases own : a = other
      · subst own
        rw [messagesBy_snoc_self]
        exact List.mem_append_left _ among
      · rw [messagesBy_snoc_other own]
        exact among
    rw [deliveries_snoc] at delivered
    rcases List.mem_append.mp delivered with before | now
    · refine (sends.known b i text before).imp_left ?_
      rintro ⟨other, among⟩
      exact ⟨other, grows other among⟩
    · obtain ⟨_, listed, same⟩ := List.mem_map.mp now
      cases same
      refine (text_of_sent handled (mem_of_textsFor listed)).imp_left fun among => ⟨a, ?_⟩
      rw [messagesBy_snoc_self]
      exact List.mem_append_right _ among

theorem sends_of_run {history : List (Label ρ)} {state : State ρ}
    (run : (system ρ).run? history = some state) : state.Sends history := by
  refine (system ρ).run?_induction (motive := fun history state => state.Sends history) sends_new
    ?_ run
  intro earlier middle label next reached sends stepped
  cases label with
  | session a input =>
      obtain ⟨after, moved, rfl⟩ := Option.map_eq_some_iff.mp stepped
      exact sends.session moved
  | serve a draw =>
      obtain ⟨stage, -, orderly⟩ := exists_orderly reached
      exact sends.serve orderly.recipientsDistinct stepped

/-- What a session has shown, each text with the place of the request that caused it. -/
def shownBy (state : State ρ) (b : ρ) : List (Nat × String) :=
  (deliveries b state.handled).take (shown (state.node b).written).length

theorem shownBy_texts {history : List (Label ρ)} {state : State ρ}
    (run : (system ρ).run? history = some state) (b : ρ) :
    (state.shownBy b).map Prod.snd = shown (state.node b).written := by
  rw [shownBy, List.map_take, ← (queued_of_run run b).shown_eq, List.take_left]

/--
Order of messages.  In every interleaving the messages of a session are handled
in the order in which its peer sent them, each other session shows some of them,
in this order and each at most once, and any two sessions show the texts that
both of them show in the same order.  Nothing else is shown but announcements.
-/
theorem messages_in_order {history : List (Label ρ)} {state : State ρ}
    (run : (system ρ).run? history = some state) :
    (∀ a, messagesBy a state.handled ++ messagesOf (state.node a).outbox = said a history) ∧
      (∀ a b, (((state.shownBy b).filter (saidBy a state.handled)).map Prod.snd).Sublist
        (said a history)) ∧
      (∀ b c x y, x ∈ state.shownBy b → y ∈ state.shownBy b → x ∈ state.shownBy c →
        y ∈ state.shownBy c → x ≠ y →
          ([x, y].Sublist (state.shownBy b) ↔ [x, y].Sublist (state.shownBy c))) ∧
      ∀ b, ∀ text ∈ shown (state.node b).written,
        (∃ a, text ∈ said a history) ∨ text ∈ announcements := by
  have sends := sends_of_run run
  refine ⟨sends.said, fun a b => ?_, ?_, ?_⟩
  · have heard : (((state.shownBy b).filter (saidBy a state.handled)).map Prod.snd).Sublist
        (heardFrom a b state.handled) :=
      (((List.take_sublist _ _).filter _).map _)
    rw [← sends.said a]
    exact (heard.trans (sends.heard a b)).trans (List.sublist_append_left _ _)
  · intro b c x y firstHere secondHere firstThere secondThere different
    exact sublist_agree sends.ordered (List.take_sublist _ _) (List.take_sublist _ _) firstHere
      secondHere firstThere secondThere different
  · intro b text among
    rw [← shownBy_texts run b] at among
    obtain ⟨⟨i, _⟩, delivered, rfl⟩ := List.mem_map.mp among
    refine (sends.known b i _ (List.mem_of_mem_take delivered)).imp_left ?_
    rintro ⟨a, handled⟩
    refine ⟨a, ?_⟩
    rw [← sends.said a]
    exact List.mem_append_left _ handled

/-- A message is on its way to the other session of "Main" and is shown there. -/
theorem messages_in_order_two_sessions :
    ∃ state, (system Nat).run? (twoSessions ++ [.serve 1 0, .session 2 .deliver]) = some state ∧
      state.shownBy 2 = [(2, "hi")] ∧
      (((state.shownBy 2).filter (saidBy 1 state.handled)).map Prod.snd).Sublist ["hi"] :=
  ⟨_, rfl, rfl, (@messages_in_order Nat _ (twoSessions ++ [.serve 1 0, .session 2 .deliver]) _
    rfl).2.1 1 2⟩

end State

end RustDemo.Chat
