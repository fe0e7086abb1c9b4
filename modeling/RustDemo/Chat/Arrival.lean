import RustDemo.Chat.Registration
import RustDemo.Chat.Rooms
import RustDemo.Transition.Interleaving

/-!
# Arrival order between sessions

What the server knows of an id is changed only by messages about that id, and
the set of rooms only grows.  So sessions with distinct ids meet at the server
in any order and leave the same maps behind.
-/

namespace RustDemo.Chat

open RustDemo.Collections RustDemo.Transition

/-- All that one session sends: a connection that draws `id`, and messages under that id. -/
structure Script (ρ : Type) where
  id : Nat
  addr : ρ
  own : List OwnRequest

def Script.requests {ρ : Type} (script : Script ρ) : List (Nat × Request ρ) :=
  (script.id, .connect script.addr) ::
    script.own.map fun own => (script.id, own.request script.id)

namespace ChatServer

variable {ρ : Type}

/-- What the server knows of an id: its recipient, and the rooms it is in. -/
def knows (server : ChatServer ρ) (id : Nat) : Option ρ × (String → Prop) :=
  (server.sessions.lookup id, server.Member id)

/-- What it knows of the id once a request has been handled. -/
def knowsAfter (id : Nat) (known : Option ρ × (String → Prop)) :
    Nat × Request ρ → Option ρ × (String → Prop)
  | (draw, .connect addr) =>
      if id = draw then (some addr, fun room => known.2 room ∨ room = "Main") else known
  | (_, .disconnect gone) =>
      if id = gone then (none, fun room => known.2 room ∧ known.1 = none) else known
  | (_, .join joiner name) => if id = joiner then (known.1, fun room => room = name) else known
  | (_, .message _ _ _) | (_, .listRooms) => known

theorem knows_of_handle {server : ChatServer ρ} {draw : Nat} {request : Request ρ}
    {out : Outcome ρ} (handled : server.handle draw request = some out) (id : Nat) :
    out.server.knows id = knowsAfter id (server.knows id) (draw, request) := by
  have lookup := lookup_of_handle handled id
  have member := funext fun room => propext (member_of_handle handled id room)
  unfold knows
  rw [lookup, member]
  cases request with
  | connect addr =>
      by_cases same : id = draw
      · simp [lookupAfter, MemberAfter, knowsAfter, same]
      · simp [lookupAfter, MemberAfter, knowsAfter, same]
  | disconnect gone =>
      by_cases same : id = gone
      · simp [lookupAfter, MemberAfter, knowsAfter, same, AList.lookup_eq_none]
      · simp [lookupAfter, MemberAfter, knowsAfter, same]
  | message sender msg room => rfl
  | listRooms => rfl
  | join joiner name =>
      by_cases same : id = joiner
      · simp [lookupAfter, MemberAfter, knowsAfter, same]
      · simp [lookupAfter, MemberAfter, knowsAfter, same]

theorem knowsAfter_of_not_concerns {draw id : Nat} {request : Request ρ}
    (apart : ¬ Concerns draw id request) (known : Option ρ × (String → Prop)) :
    knowsAfter id known (draw, request) = known := by
  cases request with
  | connect addr => exact if_neg (Ne.symm apart)
  | disconnect gone => exact if_neg (Ne.symm apart)
  | join joiner name => exact if_neg (Ne.symm apart)
  | message sender msg room => rfl
  | listRooms => rfl

theorem concerns_of_mem_requests {script : Script ρ} {event : Nat × Request ρ} {id : Nat}
    (sent : event ∈ script.requests) (concerns : Concerns event.1 id event.2) : id = script.id := by
  rcases List.mem_cons.mp sent with rfl | later
  · exact Eq.symm concerns
  · obtain ⟨own, _, rfl⟩ := List.mem_map.mp later
    cases own with
    | join name => exact Eq.symm concerns
    | disconnect => exact Eq.symm concerns
    | message msg room => cases concerns
    | listRooms => cases concerns

/-- The same recipients, the same rooms, and the same members of each room. -/
structure Agrees (server other : ChatServer ρ) : Prop where
  sessions : ∀ id, server.sessions.lookup id = other.sessions.lookup id
  rooms : ∀ room, room ∈ server.rooms ↔ room ∈ other.rooms
  members : ∀ room id, server.Member id room ↔ other.Member id room

variable {κ : Type} [DecidableEq κ] {script : κ → Script ρ}

/-- What is known of an id in the end is what its own session sent, in its own order. -/
theorem knows_of_interleaves (distinct : ∀ j k, (script j).id = (script k).id → j = k)
    {history : List (κ × (Nat × Request ρ))}
    (interleaves : Interleaves history fun k => (script k).requests) {server : ChatServer ρ}
    (run : (system ρ).run? (history.map Prod.snd) = some server) :
    (∀ k, server.knows (script k).id =
        (script k).requests.foldl (knowsAfter (script k).id) (default.knows (script k).id)) ∧
      ∀ id, (∀ k, id ≠ (script k).id) → server.knows id = default.knows id := by
  have folded : ∀ id, server.knows id =
      (history.map Prod.snd).foldl (knowsAfter id) (default.knows id) := by
    intro id
    refine (system ρ).part_of_run (fun server => server.knows id) (knowsAfter id) ?_ run
    intro server event next stepped
    obtain ⟨out, handled, rfl⟩ := step?_eq_some.mp stepped
    exact knows_of_handle handled id
  constructor
  · intro k
    rw [folded]
    refine interleaves.foldl_eq _ k (fun j event other sent known => ?_) _
    refine knowsAfter_of_not_concerns (fun concerns => ?_) known
    exact other (distinct k j (concerns_of_mem_requests sent concerns)).symm
  · intro id stranger
    rw [folded]
    refine interleaves.foldl_eq_self _ (fun j event sent known => ?_) _
    exact knowsAfter_of_not_concerns
      (fun concerns => stranger j (concerns_of_mem_requests sent concerns)) known

theorem joined_of_interleaves {history : List (κ × (Nat × Request ρ))}
    (interleaves : Interleaves history fun k => (script k).requests) (room : String) :
    Joined (history.map Prod.snd) room ↔ ∃ k draw id, (draw, .join id room) ∈ (script k).requests := by
  constructor
  · rintro ⟨draw, id, listed⟩
    obtain ⟨⟨k, event⟩, there, rfl⟩ := List.mem_map.mp listed
    exact ⟨k, draw, id, (interleaves.mem_iff k _).mp there⟩
  · rintro ⟨k, draw, id, sent⟩
    exact ⟨draw, id, List.mem_map.mpr ⟨_, (interleaves.mem_iff k _).mpr sent, rfl⟩⟩

/--
Any two orders in which the messages of sessions with distinct ids arrive, each
session's own in their order, leave the server with the same recipients, the
same rooms and the same members.
-/
theorem arrival_order_irrelevant (distinct : ∀ j k, (script j).id = (script k).id → j = k)
    {first second : List (κ × (Nat × Request ρ))}
    (firstOrder : Interleaves first fun k => (script k).requests)
    (secondOrder : Interleaves second fun k => (script k).requests) :
    ∃ server other, (system ρ).run? (first.map Prod.snd) = some server ∧
      (system ρ).run? (second.map Prod.snd) = some other ∧ server.Agrees other := by
  obtain ⟨server, run⟩ := run?_isSome (first.map Prod.snd)
  obtain ⟨other, otherRun⟩ := run?_isSome (second.map Prod.snd)
  have same : ∀ id, server.knows id = other.knows id := by
    intro id
    obtain ⟨own, stranger⟩ := knows_of_interleaves distinct firstOrder run
    obtain ⟨otherOwn, otherStranger⟩ := knows_of_interleaves distinct secondOrder otherRun
    by_cases known : ∃ k, id = (script k).id
    · obtain ⟨k, rfl⟩ := known
      rw [own, otherOwn]
    · rw [stranger id fun k here => known ⟨k, here⟩,
        otherStranger id fun k here => known ⟨k, here⟩]
  refine ⟨server, other, run, otherRun, ?_, ?_, ?_⟩
  · intro id
    exact congrArg Prod.fst (same id)
  · intro room
    rw [mem_rooms_of_run run, mem_rooms_of_run otherRun, joined_of_interleaves firstOrder,
      joined_of_interleaves secondOrder]
  · intro room id
    exact Iff.of_eq (congrFun (congrArg Prod.snd (same id)) room)

/-- One session joins a room, another one joins it too and leaves. -/
def hostAndGuest : Bool → Script Nat
  | true => ⟨5, 1, [.join "Attic"]⟩
  | false => ⟨6, 2, [.join "Attic", .disconnect]⟩

theorem arrival_order_irrelevant_host_and_guest :
    ∃ server other,
      (system Nat).run? [(5, .connect 1), (5, .join 5 "Attic"), (6, .connect 2),
        (6, .join 6 "Attic"), (6, .disconnect 6)] = some server ∧
      (system Nat).run? [(6, .connect 2), (6, .join 6 "Attic"), (5, .connect 1),
        (6, .disconnect 6), (5, .join 5 "Attic")] = some other ∧ server.Agrees other :=
  @arrival_order_irrelevant Nat Bool _ hostAndGuest (by decide)
    [(true, (5, .connect 1)), (true, (5, .join 5 "Attic")), (false, (6, .connect 2)),
      (false, (6, .join 6 "Attic")), (false, (6, .disconnect 6))]
    [(false, (6, .connect 2)), (false, (6, .join 6 "Attic")), (true, (5, .connect 1)),
      (false, (6, .disconnect 6)), (true, (5, .join 5 "Attic"))]
    (by rintro (_ | _) <;> rfl) (by rintro (_ | _) <;> rfl)

end ChatServer

end RustDemo.Chat
