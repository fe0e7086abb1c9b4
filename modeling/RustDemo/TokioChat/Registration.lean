import RustDemo.ChatNew.Registration
import RustDemo.TokioChat.Connection

/-!
# Registration of connections

The map of `tokio_chat` as a registry, and what both line servers make of an
address that is taken: the entry of a connection stays its own just as long as
no other connection registers under its address.
-/

namespace RustDemo.TokioChat

open RustDemo.ChatNew RustDemo.Collections RustDemo.Transition

variable {κ σ ε : Type} [DecidableEq κ] [DecidableEq σ] {addr : κ → σ} {display : σ → String}

def Task.Live (task : Task ε) : Prop := ∃ connection, task = .connected connection

theorem Task.live_of_unboundedSend {task next : Task ε} {msg : String}
    (sent : task.unboundedSend msg = some next) : next.Live ↔ task.Live := by
  cases task with
  | connected connection =>
      cases sent
      exact ⟨fun _ => ⟨connection, rfl⟩, fun _ => ⟨_, rfl⟩⟩
  | absent => cases sent
  | closed => cases sent

namespace Chat

theorem sendToOthers_eq_sendAll (own : σ) (msg : String) (entries : List (Sigma fun _ : σ => κ))
    (tasks : κ → Task ε) :
    sendToOthers own msg entries tasks =
      sendAll (fun task => task.unboundedSend msg) (others own entries) tasks := by
  induction entries generalizing tasks with
  | nil => rfl
  | cons entry entries ih =>
      obtain ⟨other, tx⟩ := entry
      rw [sendToOthers, others_cons]
      split
      · rw [sendAll]
        simp only [ih]
      · exact ih tasks

def Live (chat : Chat κ σ ε) (k : κ) : Prop := (chat.tasks k).Live

def lastRead (connection : Connection ε) : Bool :=
  match connection.readLine.1 with
  | .error _ => true
  | .ok .notReady => false
  | .ok (.ready vec) => vec.length = 0

def lastWrite (chat : Chat κ σ ε) (k : κ) (connection : Connection ε) (event : WriteEvent ε) :
    Bool :=
  if connection.writing.isEmpty then
    match connection.rx with
    | _ :: _ => false
    | [] => k ∉ chat.connections.entries.map Sigma.snd
  else
    match event with
    | .wrote n => n = 0
    | .notReady => false
    | .error _ => true

def change (chat : Chat κ σ ε) : Action κ ε → Change κ
  | .accept k _ => .register k
  | .read k =>
      match chat.tasks k with
      | .connected connection => if lastRead connection then .unregister k else .keep
      | _ => .keep
  | .write k event =>
      match chat.tasks k with
      | .connected connection =>
          if chat.lastWrite k connection event then .unregister k else .keep
      | _ => .keep

omit [DecidableEq σ] in
theorem change_read {chat : Chat κ σ ε} {k : κ} {connection : Connection ε}
    (live : chat.tasks k = .connected connection) :
    chat.change (.read k) = if lastRead connection then .unregister k else .keep := by
  rw [change, live]

omit [DecidableEq σ] in
theorem change_write {chat : Chat κ σ ε} {k : κ} {connection : Connection ε}
    (live : chat.tasks k = .connected connection) (event : WriteEvent ε) :
    chat.change (.write k event) =
      if chat.lastWrite k connection event then .unregister k else .keep := by
  rw [change, live]

variable (addr) in
/-- The last round closes the connection, any other leaves the map and who is alive. -/
inductive Rounded (chat : Chat κ σ ε) (k : κ) : Bool → Chat κ σ ε → Prop where
  | closed : Rounded chat k true (chat.close addr k)
  | kept {next : Chat κ σ ε} (map : next.connections = chat.connections)
      (lives : ∀ j, next.Live j ↔ chat.Live j) : Rounded chat k false next

omit [DecidableEq σ] in
theorem live_setTask {chat : Chat κ σ ε} {k : κ} {task : Task ε}
    (same : task.Live ↔ (chat.tasks k).Live) (j : κ) : (chat.setTask k task).Live j ↔ chat.Live j := by
  by_cases here : j = k
  · subst here
    rw [Live, setTask_self]
    exact same
  · rw [Live, setTask_of_ne _ _ here]
    exact Iff.rfl

omit [DecidableEq σ] in
theorem live_connected {chat : Chat κ σ ε} {k : κ} {connection : Connection ε}
    (live : chat.tasks k = .connected connection) (after : Connection ε) (j : κ) :
    (chat.setTask k (.connected after)).Live j ↔ chat.Live j :=
  live_setTask ⟨fun _ => ⟨_, live⟩, fun _ => ⟨_, rfl⟩⟩ j

theorem live_handle {chat next : Chat κ σ ε} {k : κ} {message : Option String}
    (handled : chat.handle addr display k message = some next) :
    next.connections = chat.connections ∧ ∀ j, next.Live j ↔ chat.Live j := by
  unfold handle at handled
  split at handled
  · obtain ⟨tasks, loop, rfl⟩ := Option.map_eq_some_iff.mp handled
    rw [sendToOthers_eq_sendAll] at loop
    exact ⟨rfl, sendAll_preserves (P := Task.Live) (fun _ _ => Task.live_of_unboundedSend) loop⟩
  · split at handled
    · cases handled
    · obtain ⟨task, sent, rfl⟩ := Option.map_eq_some_iff.mp handled
      exact ⟨rfl, live_setTask (Task.live_of_unboundedSend sent)⟩

theorem rounded_read {chat next : Chat κ σ ε} {k : κ} {connection : Connection ε}
    (live : chat.tasks k = .connected connection)
    (stepped : chat.read addr display k connection = some next) :
    Rounded addr chat k (lastRead connection) next := by
  unfold read at stepped
  unfold lastRead
  split at stepped <;> rename_i reads <;> rw [reads]
  · cases stepped
    exact .closed
  · cases stepped
    exact .kept rfl (live_connected live _)
  · dsimp only
    split at stepped
    · rename_i ended
      cases stepped
      rw [decide_eq_true ended]
      exact .closed
    · rename_i more
      obtain ⟨map, lives⟩ := live_handle stepped
      rw [decide_eq_false more]
      exact .kept map fun j => (lives j).trans (live_connected live _ j)

theorem rounded_write {chat next : Chat κ σ ε} {k : κ} {connection : Connection ε}
    {event : WriteEvent ε} (live : chat.tasks k = .connected connection)
    (stepped : chat.write addr k connection event = some next) :
    Rounded addr chat k (chat.lastWrite k connection event) next := by
  have idle : Rounded addr chat k false chat := .kept rfl fun _ => Iff.rfl
  unfold write at stepped
  unfold lastWrite
  split at stepped
  · rename_i written
    rw [if_pos written]
    cases queued : connection.rx with
    | cons msg rx =>
        rw [queued] at stepped
        cases stepped
        exact .kept rfl (live_connected live _)
    | nil =>
        rw [queued] at stepped
        dsimp only at stepped ⊢
        split at stepped <;> rename_i listed <;> cases stepped
        · rw [decide_eq_false (not_not_intro listed)]
          exact idle
        · rw [decide_eq_true listed]
          exact .closed
  · rename_i unwritten
    rw [if_neg unwritten]
    cases event with
    | wrote n =>
        dsimp only at stepped ⊢
        split at stepped
        · rename_i nothing
          cases stepped
          rw [decide_eq_true nothing]
          exact .closed
        · rename_i some
          rw [decide_eq_false some]
          split at stepped <;> cases stepped
          exact .kept rfl (live_connected live _)
    | notReady =>
        cases stepped
        exact idle
    | error failure =>
        cases stepped
        exact .closed

theorem applies_of_rounded {chat next : Chat κ σ ε} {k : κ} {last : Bool} (live : chat.Live k)
    (rounded : Rounded addr chat k last next) :
    (if last then Change.unregister k else .keep).Applies addr chat.connections next.connections
      chat.Live next.Live := by
  cases rounded with
  | closed =>
      refine .unregister live (fun address => HashMap.lookup_erase ..) fun j => ?_
      by_cases here : j = k
      · subst here
        have gone : (chat.close addr j).tasks j = .closed := setTask_self ..
        constructor
        · rintro ⟨_, still⟩
          cases gone.symm.trans still
        · rintro ⟨other, -⟩
          exact absurd rfl other
      · have same : (chat.close addr k).tasks j = chat.tasks j := setTask_of_ne _ _ here
        rw [Live, same]
        exact ⟨fun lives => ⟨here, lives⟩, And.right⟩
  | kept map lives =>
      rw [map]
      exact .keep (fun _ => rfl) lives

theorem applies_accept {chat : Chat κ σ ε} {k : κ} {incoming : List (ReadEvent ε)}
    (absent : chat.tasks k = .absent) :
    (Change.register k).Applies addr chat.connections (chat.accept addr k incoming).connections
      chat.Live (chat.accept addr k incoming).Live := by
  refine .register ?_ (fun address => HashMap.lookup_insert ..) fun j => ?_
  · rintro ⟨connection, live⟩
    cases absent.symm.trans live
  · by_cases here : j = k
    · subst here
      exact ⟨fun _ => Or.inl rfl, fun _ => ⟨_, setTask_self ..⟩⟩
    · have same : (chat.accept addr k incoming).tasks j = chat.tasks j := setTask_of_ne _ _ here
      rw [Live, same]
      exact ⟨Or.inr, fun either => either.resolve_left here⟩

theorem applies_of_step? {chat next : Chat κ σ ε} {action : Action κ ε}
    (stepped : chat.step? addr display action = some next) :
    (chat.change action).Applies addr chat.connections next.connections chat.Live next.Live := by
  cases action with
  | accept k incoming =>
      rw [step?] at stepped
      split at stepped <;> cases stepped
      rename_i absent
      exact applies_accept absent
  | read k =>
      rw [step?] at stepped
      split at stepped
      · rename_i live
        rw [change_read live]
        exact applies_of_rounded ⟨_, live⟩ (rounded_read live stepped)
      · cases stepped
  | write k event =>
      rw [step?] at stepped
      split at stepped
      · rename_i live
        rw [change_write live]
        exact applies_of_rounded ⟨_, live⟩ (rounded_write live stepped)
      · cases stepped

variable (addr display) in
/-- The map of `connections`. -/
def registry : Registry (system addr display : System (Chat κ σ ε) (Action κ ε)) κ σ where
  addr := addr
  map := Chat.connections
  Live := Chat.Live
  change := Chat.change
  map_init _ := rfl
  live_init _ := by rintro ⟨_, ⟨⟩⟩
  step _ _ _ := applies_of_step?

/-! ## Registrations that last -/

def Receives (addr : κ → σ) (display : σ → String) (chat : Chat κ σ ε) (k : κ) : Prop :=
  ∀ sender msg connection next, addr sender ≠ addr k → chat.tasks k = .connected connection →
    chat.handle addr display sender (some msg) = some next →
      next.tasks k = .connected { connection with
        rx := connection.rx ++ [display (addr sender) ++ ": " ++ msg] }

theorem receives_of_listed {chat : Chat κ σ ε} (owned : (registry addr display).Owned chat) {k : κ}
    (listed : chat.connections.lookup (addr k) = some k) : chat.Receives addr display k := by
  intro sender msg connection next foreign live sent
  obtain ⟨tasks, loop, rfl⟩ := Option.map_eq_some_iff.mp sent
  rw [sendToOthers_eq_sendAll] at loop
  have there : k ∈ others (addr sender) chat.connections.entries :=
    mem_others.mpr ⟨addr k, Ne.symm foreign, (HashMap.mem_entries_iff _ _ _).mpr listed⟩
  have queued := sendAll_of_mem (others_nodup owned.values_nodup) loop there
  rw [live] at queued
  exact (Option.some.inj queued).symm

/--
Every connection that registered last under its address has its own `Tx` in the
map and receives what others say.
-/
def Registered (addr : κ → σ) (display : σ → String) (state : Chat κ σ ε × (σ → Option κ)) :
    Prop :=
  ∀ k, state.1.Live k → state.2 (addr k) = some k →
    state.1.connections.lookup (addr k) = some k ∧ state.1.Receives addr display k

theorem always_registered_iff {history : List (Action κ ε)} {chat : Chat κ σ ε}
    (run : (system addr display).run? history = some chat) :
    (registry addr display).recorded.Always (Registered addr display) history ↔
      (registry addr display).recorded.Meets (registry addr display).RemovesOwn history :=
  Registry.held_with_iff (fun _ _ owned listed => receives_of_listed owned listed) run

/-- Two connections of one address are accepted, and the first of them ends. -/
def lateEnd : List (Action Nat Unit) := [.accept 0 [], .accept 1 [.notReady], .read 0]

/-- In both servers the older connection takes the entry of the newer one with it. -/
theorem late_end_removes_newer :
    (∃ state, (ChatNew.Chat.registry (ε := Unit) fun _ : Nat => 0).recorded.run?
        ChatNew.Chat.lateDrop = some state ∧ ¬ ChatNew.Chat.Registered (fun _ => 0) state) ∧
      ∃ state, (registry (ε := Unit) (fun _ : Nat => 0) fun _ => "").recorded.run? lateEnd =
        some state ∧ ¬ Registered (fun _ => 0) (fun _ => "") state := by
  constructor
  · refine ⟨_, rfl, fun registered => ?_⟩
    have missing := (registered 1 ⟨_, rfl⟩ rfl).1
    cases missing
  · refine ⟨_, rfl, fun registered => ?_⟩
    have missing := (registered 1 ⟨_, rfl⟩ rfl).1
    cases missing

/--
In both servers, in every order of what the connections do, the connection that
registered last under an address keeps its own `Tx` there, and receives what
others say, exactly if nobody ends while the `Tx` of another connection stands
under its address.
-/
theorem own_registration_iff {history : List (ChatNew.Action κ ε)} {chat : ChatNew.Chat κ σ ε}
    (run : (ChatNew.Chat.system addr).run? history = some chat)
    {tokioHistory : List (Action κ ε)} {tokioChat : Chat κ σ ε}
    (tokioRun : (system addr display).run? tokioHistory = some tokioChat) :
    ((ChatNew.Chat.registry addr).recorded.Always (ChatNew.Chat.Registered addr) history ↔
      (ChatNew.Chat.registry addr).recorded.Meets (ChatNew.Chat.registry addr).RemovesOwn history) ∧
    ((registry addr display).recorded.Always (Registered addr display) tokioHistory ↔
      (registry addr display).recorded.Meets (registry addr display).RemovesOwn tokioHistory) :=
  ⟨ChatNew.Chat.always_registered_iff run, always_registered_iff tokioRun⟩

theorem own_registration_iff_late_end :
    ¬ (ChatNew.Chat.registry (ε := Unit) fun _ : Nat => 0).recorded.Meets
        (ChatNew.Chat.registry (ε := Unit) fun _ : Nat => 0).RemovesOwn ChatNew.Chat.lateDrop ∧
      ¬ (registry (ε := Unit) (fun _ : Nat => 0) fun _ => "").recorded.Meets
        (registry (ε := Unit) (fun _ : Nat => 0) fun _ => "").RemovesOwn lateEnd := by
  obtain ⟨named, accepted⟩ := @own_registration_iff Nat Nat Unit _ _ (fun _ => 0) (fun _ => "")
    ChatNew.Chat.lateDrop _ rfl lateEnd _ rfl
  constructor
  · intro meets
    have registered := System.property_of_always _ (named.mpr meets) rfl
    have missing := (registered 1 ⟨_, rfl⟩ rfl).1
    cases missing
  · intro meets
    have registered := System.property_of_always _ (accepted.mpr meets) rfl
    have missing := (registered 1 ⟨_, rfl⟩ rfl).1
    cases missing

end Chat

end RustDemo.TokioChat
