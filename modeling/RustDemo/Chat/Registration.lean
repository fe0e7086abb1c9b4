import RustDemo.Chat.Server

/-!
# Live registrations

Sessions that connect once, with their own recipient, and then use only the id
they were given.  The generator may return any number: a draw that is in use
replaces another session, and a late disconnect may remove another one.
-/

namespace RustDemo.Chat

open RustDemo.Transition

/-- What a session sends under the id it was given. -/
inductive OwnRequest where
  | join (name : String)
  | message (msg room : String)
  | listRooms
  | disconnect
  deriving DecidableEq, Repr

def OwnRequest.request {ρ : Type} (id : Nat) : OwnRequest → Request ρ
  | .join name => .join id name
  | .message msg room => .message id msg room
  | .listRooms => .listRooms
  | .disconnect => .disconnect id

/-- Where a session stands: not connected yet, connected, or its `Disconnect` was handled. -/
inductive Standing where
  | absent
  | connected (id : Nat)
  | left (id : Nat)
  deriving DecidableEq, Repr

namespace Standing

def id? : Standing → Option Nat
  | absent => none
  | connected id => some id
  | left id => some id

/-- Only a disconnect changes where a session stands. -/
def after (standing : Standing) (own : OwnRequest) : Standing :=
  match own, standing with
  | .disconnect, connected id => left id
  | _, standing => standing

end Standing

/-- The server and its sessions; the recipient of a session is the session itself. -/
structure Registrations (κ : Type) where
  server : ChatServer κ
  standing : κ → Standing

/-- The server handles a message of a session. -/
inductive SessionEvent (κ : Type) where
  | connect (k : κ) (draw : Nat)
  | own (k : κ) (own : OwnRequest)

namespace Registrations

variable {κ : Type} [DecidableEq κ]

def step? (state : Registrations κ) : SessionEvent κ → Option (Registrations κ)
  | .connect k draw =>
      match state.standing k with
      | .absent => (state.server.handle draw (.connect k)).map fun out =>
          ⟨out.server, Function.update state.standing k (.connected draw)⟩
      | _ => none
  | .own k own =>
      -- the draw is read by `Connect` only
      (state.standing k).id?.bind fun id =>
        (state.server.handle 0 (own.request id)).map fun out =>
          ⟨out.server, Function.update state.standing k ((state.standing k).after own)⟩

variable (κ) in
def system : System (Registrations κ) (SessionEvent κ) :=
  ⟨⟨ChatServer.default, fun _ => .absent⟩, step?⟩

/-- Connected sessions have different ids, and each is registered with its own recipient. -/
def LiveRegistered (state : Registrations κ) : Prop :=
  (∀ j k id, state.standing j = .connected id → state.standing k = .connected id → j = k) ∧
    ∀ k id, state.standing k = .connected id → state.server.sessions.lookup id = some k

/--
A connection draws a number that is not in use, and a session disconnects only
while the entry under its id is its own or gone.
-/
def KeepsToItself (state : Registrations κ) : SessionEvent κ → Prop
  | .connect _ draw => state.server.sessions.lookup draw = none
  | .own k .disconnect => ∀ id j, (state.standing k).id? = some id →
      state.server.sessions.lookup id = some j → j = k
  | .own _ _ => True

/-- Every entry of `sessions` is that of a connected session. -/
def EntriesConnected (state : Registrations κ) : Prop :=
  ∀ id k, state.server.sessions.lookup id = some k → state.standing k = .connected id

/-- All that one message does to `sessions` and to where the sessions stand. -/
inductive Stepped (state : Registrations κ) : SessionEvent κ → Registrations κ → Prop where
  | connect {k : κ} {draw : Nat} {next : Registrations κ} (absent : state.standing k = .absent)
      (lookup : ∀ id, next.server.sessions.lookup id =
        if id = draw then some k else state.server.sessions.lookup id)
      (standing : next.standing = Function.update state.standing k (.connected draw)) :
      Stepped state (.connect k draw) next
  | disconnect {k : κ} {id : Nat} {next : Registrations κ} (given : (state.standing k).id? = some id)
      (lookup : ∀ other, next.server.sessions.lookup other =
        if other = id then none else state.server.sessions.lookup other)
      (standing : next.standing = Function.update state.standing k (.left id)) :
      Stepped state (.own k .disconnect) next
  | other {k : κ} {own : OwnRequest} {next : Registrations κ} (stays : own ≠ .disconnect)
      (lookup : ∀ id, next.server.sessions.lookup id = state.server.sessions.lookup id)
      (standing : next.standing = state.standing) : Stepped state (.own k own) next

theorem stepped_of_step? {state next : Registrations κ} {event : SessionEvent κ}
    (stepped : state.step? event = some next) : state.Stepped event next := by
  cases event with
  | connect k draw =>
      rw [step?] at stepped
      split at stepped
      · rename_i absent
        obtain ⟨out, handled, rfl⟩ := Option.map_eq_some_iff.mp stepped
        exact .connect absent (ChatServer.lookup_of_handle handled) rfl
      · cases stepped
  | own k own =>
      obtain ⟨id, given, moved⟩ := Option.bind_eq_some_iff.mp stepped
      obtain ⟨out, handled, rfl⟩ := Option.map_eq_some_iff.mp moved
      have lookup := ChatServer.lookup_of_handle handled
      have unmoved : Function.update state.standing k (state.standing k) = state.standing :=
        Function.update_eq_self k state.standing
      cases own with
      | disconnect =>
          refine .disconnect given lookup ?_
          have gone : (state.standing k).after .disconnect = .left id := by
            cases stands : state.standing k <;> rw [stands] at given <;> cases given <;> rfl
          dsimp only
          rw [gone]
      | join name => exact .other nofun lookup unmoved
      | message msg room => exact .other nofun lookup unmoved
      | listRooms => exact .other nofun lookup unmoved

section Step

variable {state next : Registrations κ} {event : SessionEvent κ}

theorem EntriesConnected.step (entries : state.EntriesConnected)
    (stepped : state.Stepped event next) : next.EntriesConnected := by
  intro id j listed
  cases stepped with
  | @connect k draw _ absent lookup standing =>
      rw [lookup] at listed
      rw [standing]
      split at listed
      · rename_i drawn
        cases listed
        rw [Function.update_self, drawn]
      · have stands := entries id j listed
        have other : j ≠ k := by
          rintro rfl
          cases absent.symm.trans stands
        rw [Function.update_of_ne other]
        exact stands
  | @disconnect k gone _ given lookup standing =>
      rw [lookup] at listed
      rw [standing]
      split at listed
      · cases listed
      · rename_i elsewhere
        have stands := entries id j listed
        have other : j ≠ k := by
          rintro rfl
          rw [stands] at given
          exact elsewhere (Option.some.inj given)
        rw [Function.update_of_ne other]
        exact stands
  | other stays lookup standing =>
      rw [lookup] at listed
      rw [standing]
      exact entries id j listed

omit [DecidableEq κ] in
theorem liveRegistered_iff_lookup :
    state.LiveRegistered ↔
      ∀ k id, state.standing k = .connected id → state.server.sessions.lookup id = some k := by
  refine ⟨And.right, fun registered => ⟨?_, registered⟩⟩
  intro j k id first second
  exact Option.some.inj ((registered j id first).symm.trans (registered k id second))

/-- One message leaves every live session registered exactly if it keeps to itself. -/
theorem LiveRegistered.step (entries : state.EntriesConnected) (live : state.LiveRegistered)
    (stepped : state.Stepped event next) : next.LiveRegistered ↔ state.KeepsToItself event := by
  rw [liveRegistered_iff_lookup]
  rw [liveRegistered_iff_lookup] at live
  cases stepped with
  | @connect k draw _ absent lookup standing =>
      rw [standing]
      refine (Function.forall_update_iff state.standing fun j stands => ∀ id,
        stands = .connected id → next.server.sessions.lookup id = some j).trans ?_
      constructor
      · rintro ⟨_, others⟩
        cases taken : state.server.sessions.lookup draw with
        | none => exact taken
        | some j =>
            have stands := entries draw j taken
            have other : j ≠ k := by
              rintro rfl
              cases absent.symm.trans stands
            have still := others j other draw stands
            rw [lookup, if_pos rfl] at still
            exact absurd (Option.some.inj still).symm other
      · intro unused
        refine ⟨?_, fun j _ id stands => ?_⟩
        · rintro _ ⟨⟩
          rw [lookup, if_pos rfl]
        · have listed := live j id stands
          have elsewhere : id ≠ draw := by
            rintro rfl
            cases unused.symm.trans listed
          rw [lookup, if_neg elsewhere]
          exact listed
  | @disconnect k gone _ given lookup standing =>
      rw [standing]
      refine (Function.forall_update_iff state.standing fun j stands => ∀ id,
        stands = .connected id → next.server.sessions.lookup id = some j).trans ?_
      constructor
      · rintro ⟨_, others⟩ id j same listed
        cases given.symm.trans same
        by_contra other
        have still := others j other gone (entries gone j listed)
        rw [lookup, if_pos rfl] at still
        cases still
      · intro own
        refine ⟨nofun, fun j here id stands => ?_⟩
        have listed := live j id stands
        have elsewhere : id ≠ gone := by
          rintro rfl
          exact here (own id j given listed)
        rw [lookup, if_neg elsewhere]
        exact listed
  | @other k own _ stays lookup standing =>
      have free : state.KeepsToItself (.own k own) := by
        cases own with
        | disconnect => exact absurd rfl stays
        | _ => trivial
      refine ⟨fun _ => free, fun _ j id stands => ?_⟩
      rw [standing] at stands
      rw [lookup]
      exact live j id stands

end Step

/--
Live sessions keep distinct registrations at all times exactly in those runs in
which no connection draws a number that is in use and no session disconnects an
id under which another session is registered.
-/
theorem always_liveRegistered_iff {history : List (SessionEvent κ)} {state : Registrations κ}
    (run : (system κ).run? history = some state) :
    (system κ).Always LiveRegistered history ↔ (system κ).Meets KeepsToItself history := by
  refine (system κ).always_iff_meets EntriesConnected ⟨nofun, nofun⟩ nofun ?_ ?_ run
  · intro state event next entries stepped
    exact entries.step (stepped_of_step? stepped)
  · intro state event next entries live stepped
    exact live.step entries (stepped_of_step? stepped)

/-- The second session draws the number of the first and takes its registration. -/
theorem repeated_draw_evicts :
    ∃ state, (system Nat).run? [.connect 1 5, .connect 2 5] = some state ∧
      ¬ state.LiveRegistered := by
  refine ⟨_, rfl, fun live => ?_⟩
  have same := live.1 1 2 5 rfl rfl
  cases same

/-- A session that has left disconnects again when its number has been drawn once more. -/
theorem always_liveRegistered_iff_second_disconnect :
    ¬ (system Nat).Meets KeepsToItself
      [.connect 1 5, .own 1 .disconnect, .connect 2 5, .own 1 .disconnect] := by
  intro meets
  have live := ((system Nat).property_of_always ((always_liveRegistered_iff rfl).mpr meets) rfl).2 2 5
  cases live rfl

end Registrations

end RustDemo.Chat
