import RustDemo.Chat.Server

/-!
# Who is where

The abstract purpose of the server is a directory: each registered id has a
recipient and one current room.  The concrete server keeps the same facts in
two maps, and it tracks the directory in every run whose connections draw
unused ids.
-/

namespace RustDemo.Chat

open RustDemo.Collections RustDemo.Transition

abbrev Directory (ρ : Type) := Nat → Option (ρ × String)

namespace Directory

variable {ρ : Type}

/-- The effect a request is meant to have on the directory. -/
def after (directory : Directory ρ) (draw : Nat) : Request ρ → Directory ρ
  | .connect addr => Function.update directory draw (some (addr, "Main"))
  | .disconnect id => Function.update directory id none
  | .join id name =>
      Function.update directory id ((directory id).map fun entry => (entry.1, name))
  | .message _ _ _ | .listRooms => directory

def system (ρ : Type) : System (Directory ρ) (Nat × Request ρ) where
  init := fun _ => none
  step? directory event := some (directory.after event.1 event.2)

end Directory

namespace ChatServer

variable {ρ : Type}

/-- The number drawn by a connection is neither registered nor in any room. -/
def FreshConnect (server : ChatServer ρ) (event : Nat × Request ρ) : Prop :=
  ∀ addr, event.2 = .connect addr →
    server.sessions.lookup event.1 = none ∧ ∀ room, ¬ server.Member event.1 room

/-- The two maps of the server hold the directory, and nobody is in two rooms. -/
structure Tracks (server : ChatServer ρ) (directory : Directory ρ) : Prop where
  lookup_eq : ∀ id, server.sessions.lookup id = (directory id).map Prod.fst
  member : ∀ id addr room, directory id = some (addr, room) → server.Member id room
  one_room : ∀ id room other, server.Member id room → server.Member id other → room = other

theorem Tracks.placed {server : ChatServer ρ} {directory : Directory ρ}
    (tracks : server.Tracks directory) {id : Nat} {addr : ρ} {room : String}
    (listed : directory id = some (addr, room)) : server.Placed id addr room where
  registered := by rw [tracks.lookup_eq, listed]; rfl
  room_iff other := by
    constructor
    · intro inside
      exact tracks.one_room id other room inside (tracks.member id addr room listed)
    · rintro rfl
      exact tracks.member id addr other listed

theorem Tracks.listed_of_lookup {server : ChatServer ρ} {directory : Directory ρ}
    (tracks : server.Tracks directory) {id : Nat} {addr : ρ}
    (registered : server.sessions.lookup id = some addr) :
    ∃ room, directory id = some (addr, room) := by
  rw [tracks.lookup_eq] at registered
  obtain ⟨⟨target, room⟩, listed, rfl⟩ := Option.map_eq_some_iff.mp registered
  exact ⟨room, listed⟩

theorem default_tracks : (default : ChatServer ρ).Tracks fun _ => none where
  lookup_eq _ := rfl
  member _ _ _ listed := by cases listed
  one_room id room _ inside := (default_not_member id room inside).elim

theorem Tracks.connect {server : ChatServer ρ} {directory : Directory ρ} {draw : Nat} {addr : ρ}
    {out : Outcome ρ} (tracks : server.Tracks directory)
    (unused : ∀ room, ¬ server.Member draw room)
    (handled : server.handle draw (.connect addr) = some out) :
    out.server.Tracks (directory.after draw (.connect addr)) where
  lookup_eq id := by
    rw [lookup_of_handle handled]
    simp only [lookupAfter, Directory.after, Function.update_apply]
    split
    · rfl
    · exact tracks.lookup_eq id
  member id target room listed := by
    rw [member_of_handle handled]
    simp only [Directory.after, Function.update_apply] at listed
    split at listed
    · cases listed
      exact Or.inr ⟨‹_›, rfl⟩
    · exact Or.inl (tracks.member id target room listed)
  one_room id room other first second := by
    rw [member_of_handle handled] at first second
    rcases first with first | ⟨rfl, rfl⟩ <;> rcases second with second | ⟨same, rfl⟩
    · exact tracks.one_room id room other first second
    · exact (unused room (same ▸ first)).elim
    · exact (unused other second).elim
    · rfl

theorem Tracks.disconnect {server : ChatServer ρ} {directory : Directory ρ} {draw gone : Nat}
    {out : Outcome ρ} (tracks : server.Tracks directory)
    (handled : server.handle draw (.disconnect gone) = some out) :
    out.server.Tracks (directory.after draw (.disconnect gone)) where
  lookup_eq id := by
    rw [lookup_of_handle handled]
    simp only [lookupAfter, Directory.after, Function.update_apply]
    split
    · rfl
    · exact tracks.lookup_eq id
  member id target room listed := by
    rw [member_of_handle handled]
    simp only [Directory.after, Function.update_apply] at listed
    split at listed
    · cases listed
    · rename_i other
      exact ⟨tracks.member id target room listed, fun both => other both.1⟩
  one_room id room other first second := by
    rw [member_of_handle handled] at first second
    exact tracks.one_room id room other first.1 second.1

theorem Tracks.join {server : ChatServer ρ} {directory : Directory ρ} {draw joiner : Nat}
    {name : String} {out : Outcome ρ} (tracks : server.Tracks directory)
    (handled : server.handle draw (.join joiner name) = some out) :
    out.server.Tracks (directory.after draw (.join joiner name)) where
  lookup_eq id := by
    rw [lookup_of_handle handled]
    simp only [lookupAfter, Directory.after, Function.update_apply]
    split
    · rename_i same
      rw [same, tracks.lookup_eq]
      cases directory joiner <;> rfl
    · exact tracks.lookup_eq id
  member id target room listed := by
    rw [member_of_handle handled]
    simp only [Directory.after, Function.update_apply] at listed
    split at listed
    · obtain ⟨⟨addr, old⟩, _, same⟩ := Option.map_eq_some_iff.mp listed
      cases same
      exact Or.inr ⟨‹_›, rfl⟩
    · rename_i other
      exact Or.inl ⟨tracks.member id target room listed, other⟩
  one_room id room other first second := by
    rw [member_of_handle handled] at first second
    rcases first with ⟨first, away⟩ | ⟨rfl, rfl⟩ <;> rcases second with ⟨second, apart⟩ | ⟨same, rfl⟩
    · exact tracks.one_room id room other first second
    · exact (away same).elim
    · exact (apart rfl).elim
    · rfl

theorem Tracks.handle {server : ChatServer ρ} {directory : Directory ρ} {draw : Nat}
    {request : Request ρ} {out : Outcome ρ} (tracks : server.Tracks directory)
    (fresh : server.FreshConnect (draw, request))
    (handled : server.handle draw request = some out) :
    out.server.Tracks (directory.after draw request) := by
  cases request with
  | connect addr => exact tracks.connect (fresh addr rfl).2 handled
  | disconnect gone => exact tracks.disconnect handled
  | message sender msg room => cases handled; exact tracks
  | listRooms => cases handled; exact tracks
  | join joiner name => exact tracks.join handled

/-- The server refines the directory wherever connections draw unused ids. -/
def refinesDirectory (ρ : Type) : Simulation (system ρ) (Directory.system ρ) FreshConnect where
  related := Tracks
  initial := default_tracks
  step server directory event next tracks fresh stepped := by
    obtain ⟨out, handled, rfl⟩ := step?_eq_some.mp stepped
    exact ⟨_, rfl, tracks.handle fresh handled⟩

/-- The room named by the last `Join` of an id since its `Connect`. -/
def roomAfter (id : Nat) (room : String) : Nat × Request ρ → String
  | (draw, .connect _) => if draw = id then "Main" else room
  | (_, .join joiner name) => if joiner = id then name else room
  | _ => room

def lastRoom (id : Nat) (history : List (Nat × Request ρ)) : String :=
  history.foldl (roomAfter id) "Main"

theorem directory_lastRoom {history : List (Nat × Request ρ)} {directory : Directory ρ}
    (run : (Directory.system ρ).run? history = some directory) :
    ∀ id addr room, directory id = some (addr, room) → room = lastRoom id history := by
  refine (Directory.system ρ).run?_induction (motive := fun history directory =>
    ∀ id addr room, directory id = some (addr, room) → room = lastRoom id history) ?_ ?_ run
  · intro id addr room listed
    cases listed
  · rintro earlier middle ⟨draw, request⟩ next _ ih stepped id addr room listed
    cases stepped
    rw [lastRoom, List.foldl_append]
    change room = roomAfter id (lastRoom id earlier) (draw, request)
    cases request with
    | connect target =>
        simp only [Directory.after, Function.update_apply] at listed
        by_cases same : id = draw
        · rw [if_pos same] at listed
          cases listed
          exact (if_pos same.symm).symm
        · rw [if_neg same] at listed
          exact (ih id addr room listed).trans (if_neg (Ne.symm same)).symm
    | disconnect gone =>
        simp only [Directory.after, Function.update_apply] at listed
        split at listed
        · cases listed
        · exact ih id addr room listed
    | message sender msg name => exact ih id addr room listed
    | listRooms => exact ih id addr room listed
    | join joiner name =>
        simp only [Directory.after, Function.update_apply] at listed
        by_cases same : id = joiner
        · rw [if_pos same] at listed
          obtain ⟨⟨target, old⟩, _, pair⟩ := Option.map_eq_some_iff.mp listed
          cases pair
          exact (if_pos same.symm).symm
        · rw [if_neg same] at listed
          exact (ih id addr room listed).trans (if_neg (Ne.symm same)).symm

/--
Membership partition.  After any sequence of requests whose connections draw
unused ids, a registered id is in exactly one room, that room is the one of its
last join, and no id at all is in two rooms.
-/
theorem membership_partition (history : List (Nat × Request ρ))
    (fresh : (system ρ).Meets FreshConnect history) :
    ∃ server, (system ρ).run? history = some server ∧
      (∀ id addr, server.sessions.lookup id = some addr →
        ∃ room, server.Member id room ∧ ∀ other, server.Member id other → other = room) ∧
      (∀ id room other, server.Member id room → server.Member id other → room = other) ∧
      ∀ id addr, server.sessions.lookup id = some addr →
        server.Member id (lastRoom id history) := by
  obtain ⟨server, run⟩ := run?_isSome history
  obtain ⟨directory, directoryRun, tracks⟩ := (refinesDirectory ρ).run run fresh
  refine ⟨server, run, ?_, tracks.one_room, ?_⟩
  · intro id addr registered
    obtain ⟨room, listed⟩ := Tracks.listed_of_lookup tracks registered
    exact ⟨room, tracks.member id addr room listed,
      fun other inside => ((tracks.placed listed).room_iff other).mp inside⟩
  · intro id addr registered
    obtain ⟨room, listed⟩ := Tracks.listed_of_lookup tracks registered
    rw [← directory_lastRoom directoryRun id addr room listed]
    exact tracks.member id addr room listed

/-- The partition at work: one connection that joins two rooms in turn. -/
theorem membership_partition_two_joins :
    ∃ server, (system Nat).run? [(5, .connect 1), (0, .join 5 "Kitchen"), (0, .join 5 "Attic")] =
        some server ∧
      (∀ id addr, server.sessions.lookup id = some addr →
        ∃ room, server.Member id room ∧ ∀ other, server.Member id other → other = room) ∧
      (∀ id room other, server.Member id room → server.Member id other → room = other) ∧
      ∀ id addr, server.sessions.lookup id = some addr → server.Member id
        (lastRoom id [(5, .connect 1), (0, .join 5 "Kitchen"), (0, .join 5 "Attic")]) := by
  apply membership_partition
  refine ⟨?_, fun _ _ => ⟨?_, fun _ _ => ⟨?_, fun _ _ => trivial⟩⟩⟩
  · intro addr _
    exact ⟨default_lookup 5, default_not_member 5⟩
  · intro addr impossible
    cases impossible
  · intro addr impossible
    cases impossible

/-! ## Ghost members -/

/-- Every member of a room is registered. -/
def NoGhosts (server : ChatServer ρ) : Prop :=
  ∀ id room, server.Member id room → id ∈ server.sessions

/-- A join comes from an id that is registered when it is handled. -/
def JoinRegistered (server : ChatServer ρ) (event : Nat × Request ρ) : Prop :=
  ∀ id name, event.2 = .join id name → id ∈ server.sessions

/-- A `Disconnect` of the id was handled and no later `Connect` has drawn it. -/
def Departed (id : Nat) (history : List (Nat × Request ρ)) : Prop :=
  ∃ first draw later, history = first ++ (draw, .disconnect id) :: later ∧
    ∀ addr, (id, .connect addr) ∉ later

/-- At every point of the history members are registered and the departed are in no room. -/
def NoGhostMembers (history : List (Nat × Request ρ)) : Prop :=
  ∀ first rest server, history = first ++ rest → (system ρ).run? first = some server →
    NoGhosts server ∧ ∀ id, Departed id first → ∀ room, ¬ server.Member id room

theorem mem_sessions_of_handle {server : ChatServer ρ} {draw : Nat} {request : Request ρ}
    {out : Outcome ρ} (handled : server.handle draw request = some out) (id : Nat) :
    id ∈ out.server.sessions ↔
      (id ∈ server.sessions ∧ request ≠ .disconnect id) ∨ id = draw ∧ ∃ addr, request = .connect addr := by
  rw [← AList.lookup_isSome, ← AList.lookup_isSome, lookup_of_handle handled]
  cases request with
  | connect addr =>
      by_cases same : id = draw
      · simp [lookupAfter, same]
      · simp [lookupAfter, same]
  | disconnect gone =>
      by_cases same : id = gone
      · simp [lookupAfter, same]
      · simp [lookupAfter, same, Ne.symm same]
  | message sender msg room => simp [lookupAfter]
  | listRooms => simp [lookupAfter]
  | join joiner name => simp [lookupAfter]

/-- One handler keeps ghosts out unless it is a join of an unregistered id. -/
theorem NoGhosts.handle {server : ChatServer ρ} {draw : Nat} {request : Request ρ}
    {out : Outcome ρ} (clean : server.NoGhosts)
    (registered : server.JoinRegistered (draw, request))
    (handled : server.handle draw request = some out) : out.server.NoGhosts := by
  intro id room inside
  rw [member_of_handle handled] at inside
  rw [mem_sessions_of_handle handled]
  cases request with
  | connect addr =>
      rcases inside with before | ⟨rfl, rfl⟩
      · exact Or.inl ⟨clean id room before, nofun⟩
      · exact Or.inr ⟨rfl, addr, rfl⟩
  | disconnect gone =>
      obtain ⟨before, kept⟩ := inside
      have here := clean id room before
      refine Or.inl ⟨here, ?_⟩
      intro same
      cases same
      exact kept ⟨rfl, here⟩
  | message sender msg name => exact Or.inl ⟨clean id room inside, nofun⟩
  | listRooms => exact Or.inl ⟨clean id room inside, nofun⟩
  | join joiner name =>
      rcases inside with ⟨before, _⟩ | ⟨rfl, rfl⟩
      · exact Or.inl ⟨clean id room before, nofun⟩
      · exact Or.inl ⟨registered id room rfl, nofun⟩

theorem noGhosts_of_meets {history : List (Nat × Request ρ)} {server : ChatServer ρ}
    (run : (system ρ).run? history = some server)
    (meets : (system ρ).Meets JoinRegistered history) : server.NoGhosts := by
  refine (system ρ).invariant_of_meets NoGhosts ?_ ?_ run meets
  · intro id room inside
    exact (default_not_member id room inside).elim
  · intro middle event next clean registered stepped
    obtain ⟨out, handled, rfl⟩ := step?_eq_some.mp stepped
    exact clean.handle registered handled

theorem Departed.not_registered {id : Nat} {history : List (Nat × Request ρ)}
    {server : ChatServer ρ} (departed : Departed id history)
    (run : (system ρ).run? history = some server) : id ∉ server.sessions := by
  obtain ⟨first, draw, later, rfl, unused⟩ := departed
  induction later using List.reverseRecOn generalizing server with
  | nil =>
      rw [(system ρ).run?_snoc] at run
      obtain ⟨middle, _, stepped⟩ := Option.bind_eq_some_iff.mp run
      obtain ⟨out, handled, rfl⟩ := step?_eq_some.mp stepped
      rw [mem_sessions_of_handle handled]
      simp
  | append_singleton later event ih =>
      rw [← List.cons_append, ← List.append_assoc, (system ρ).run?_snoc] at run
      obtain ⟨middle, reached, stepped⟩ := Option.bind_eq_some_iff.mp run
      obtain ⟨out, handled, rfl⟩ := step?_eq_some.mp stepped
      have absent := ih (fun addr listed => unused addr (List.mem_append_left _ listed)) reached
      rw [mem_sessions_of_handle handled]
      rintro (⟨present, _⟩ | ⟨rfl, addr, connected⟩)
      · exact absent present
      · have last : (event.1, Request.connect addr) = event := Prod.ext rfl connected.symm
        exact unused addr (List.mem_append_right _ (List.mem_singleton.mpr last))

theorem meets_of_noGhostMembers {history : List (Nat × Request ρ)}
    (clean : NoGhostMembers history) : (system ρ).Meets JoinRegistered history := by
  induction history using List.reverseRecOn with
  | nil => exact (system ρ).meets_nil
  | append_singleton earlier event ih =>
      rw [(system ρ).meets_snoc]
      constructor
      · apply ih
        intro first rest server split run
        refine clean first (rest ++ [event]) server ?_ run
        rw [split, List.append_assoc]
      · intro server run id name joined
        obtain ⟨out, handled⟩ := handle_isSome (main_mem_rooms run) event.1 event.2
        have reached : (system ρ).run? (earlier ++ [event]) = some out.server := by
          rw [(system ρ).run?_snoc, run]
          exact step?_eq_some.mpr ⟨out, handled, rfl⟩
        have inside : out.server.Member id name := by
          rw [member_of_handle handled, joined]
          exact Or.inr ⟨rfl, rfl⟩
        have present := (clean (earlier ++ [event]) [] out.server
          (List.append_nil _).symm reached).1 id name inside
        rw [mem_sessions_of_handle handled, joined] at present
        rcases present with ⟨registered, _⟩ | ⟨_, addr, impossible⟩
        · exact registered
        · cases impossible

/--
Exactly the histories in which every join comes from a registered id are free
of ghost members at every point.
-/
theorem noGhostMembers_iff (history : List (Nat × Request ρ)) :
    NoGhostMembers history ↔ (system ρ).Meets JoinRegistered history := by
  constructor
  · exact meets_of_noGhostMembers
  · intro meets first rest server split run
    subst split
    have clean := noGhosts_of_meets run ((system ρ).meets_of_append meets)
    refine ⟨clean, ?_⟩
    intro id departed room inside
    exact departed.not_registered run (clean id room inside)

/-- A join that arrives after the disconnect of its id leaves a ghost behind. -/
theorem late_join_leaves_ghost :
    ¬ NoGhostMembers [(5, Request.connect 1), (0, .disconnect 5), (0, .join 5 "Attic")] := by
  intro clean
  obtain ⟨_, later⟩ := meets_of_noGhostMembers clean
  obtain ⟨_, last⟩ := later _ rfl
  obtain ⟨registered, _⟩ := last _ rfl
  exact absurd (registered 5 "Attic" rfl) (by decide)

end ChatServer

end RustDemo.Chat
