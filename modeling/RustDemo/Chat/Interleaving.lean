import RustDemo.Chat.Protocol
import RustDemo.Chat.Membership

/-!
# All interleavings

Every reached state has a stage for each session, and every step moves one
stage.  From the stages follows what the server can rely on: an id is used only
by the session it was given to.
-/

namespace RustDemo.Chat

open RustDemo.Collections RustDemo.Transition

variable {ρ : Type}

theorem Moves.granted_eq {input : Input} {stage next : Stage} (moves : Moves input stage next) :
    next.granted = stage.granted := by
  cases moves <;> rfl

section Serves

variable {a b : ρ} {draw id : Nat} {stage next : Stage} {request : Request ρ}

theorem Serves.of_connect (serves : Serves a draw stage (.connect b) next) :
    b = a ∧ stage.granted = none ∧ next.granted = some draw := by
  cases serves with
  | connect => exact ⟨rfl, rfl, rfl⟩
  | late unknown => exact ⟨rfl, rfl, rfl⟩
  | lateZero zero => exact ⟨rfl, rfl, congrArg some zero.symm⟩
  | turn turns => cases turns

theorem Serves.of_join {name : String} (serves : Serves a draw stage (.join id name) next) :
    ∃ room, stage = .opened id (some room) ∧ next = .opened id (some name) := by
  cases serves with
  | turn turns =>
      cases turns with
      | join room name => exact ⟨room, rfl, rfl⟩

theorem Serves.of_message {msg room : String}
    (serves : Serves a draw stage (.message id msg room) next) :
    stage = .opened id (some room) ∧ next = .opened id (some room) := by
  cases serves with
  | turn turns =>
      cases turns with
      | message room msg => exact ⟨rfl, rfl⟩

theorem Serves.of_disconnect (serves : Serves a draw stage (.disconnect id) next) :
    (∃ view, stage = .opened id view ∧ next = .opened id none) ∨
      id = 0 ∧ next = stage := by
  cases serves with
  | turn turns =>
      cases turns with
      | disconnect => exact Or.inl ⟨_, rfl, rfl⟩
  | stray given => exact Or.inr ⟨rfl, rfl⟩
  | unheard => exact Or.inr ⟨rfl, rfl⟩

theorem Serves.granted_eq (serves : Serves a draw stage request next)
    (other : ∀ b, request ≠ .connect b) : next.granted = stage.granted := by
  cases serves with
  | connect => exact absurd rfl (other a)
  | late unknown => exact absurd rfl (other a)
  | lateZero zero => exact absurd rfl (other a)
  | turn turns => rfl
  | stray given => rfl
  | unheard => rfl

end Serves

def State.Staged (state : State ρ) (stage : ρ → Stage) : Prop :=
  ∀ a, (stage a).Holds a (state.node a)

namespace State

theorem staged_new : (new : State ρ).Staged fun _ => .idle := fun _ => ⟨rfl, rfl, rfl⟩

theorem draws_connect (handled : List (Handled ρ)) (a b : ρ) (draw : Nat)
    (sent : List (ρ × String)) :
    draws (handled ++ [⟨a, draw, .connect b, sent⟩]) = draws handled ++ [draw] := by
  simp [draws]

theorem draws_other {request : Request ρ} (other : ∀ b, request ≠ .connect b)
    (handled : List (Handled ρ)) (a : ρ) (draw : Nat) (sent : List (ρ × String)) :
    draws (handled ++ [⟨a, draw, request, sent⟩]) = draws handled := by
  cases request with
  | connect b => exact absurd rfl (other b)
  | _ => simp [draws]

theorem draws_sublist (handled : List (Handled ρ)) (entry : Handled ρ) :
    (draws handled).Sublist (draws (handled ++ [entry])) :=
  (List.sublist_append_left handled [entry]).filterMap _

theorem fresh_of_nodup {numbers : List Nat} {draw : Nat} (distinct : (numbers ++ [draw]).Nodup) :
    numbers.Nodup ∧ draw ∉ numbers :=
  (List.nodup_cons.mp (List.nodup_append_comm.mp distinct)).symm

theorem requests_snoc (handled : List (Handled ρ)) (entry : Handled ρ) :
    requests (handled ++ [entry]) = requests handled ++ [(entry.draw, entry.request)] := by
  simp [requests]

end State

variable [DecidableEq ρ]

/-- A step as the stages and the server see it. -/
inductive Progress (state : State ρ) (stage : ρ → Stage) :
    Label ρ → State ρ → (ρ → Stage) → Prop where
  | session {a : ρ} {input : Input} {next : Stage} {node : ρ → Node ρ}
      (moves : Moves input (stage a) next) :
      Progress state stage (.session a input) { state with node := node }
        (Function.update stage a next)
  | serve {a : ρ} {draw : Nat} {request : Request ρ} {rest : List (Request ρ)} {out : Outcome ρ}
      {next : Stage} {node : ρ → Node ρ} (head : (state.node a).outbox = request :: rest)
      (handled : state.server.handle draw request = some out)
      (present : (state.node a).phase = .stopped → ∀ b, request ≠ .connect b)
      (serves : Serves a draw (stage a) request next) :
      Progress state stage (.serve a draw)
        ⟨out.server, node, state.handled ++ [⟨a, draw, request, out.sent⟩]⟩
        (Function.update stage a next)
  | skip {a : ρ} {draw : Nat} {node : ρ → Node ρ} :
      Progress state stage (.serve a draw) { state with node := node } stage

namespace State

theorem progress_of_step? {state next : State ρ} {stage : ρ → Stage} {label : Label ρ}
    (staged : state.Staged stage) (stepped : state.step? label = some next) :
    ∃ nextStage, next.Staged nextStage ∧ Progress state stage label next nextStage := by
  cases label with
  | session a input =>
      obtain ⟨node, moved, rfl⟩ := Option.map_eq_some_iff.mp stepped
      obtain ⟨after, holds, moves⟩ := moves_of_step? (staged a) moved
      refine ⟨Function.update stage a after, ?_, .session moves⟩
      intro b
      rcases eq_or_ne b a with rfl | other
      · simpa using holds
      · simpa [other] using staged b
  | serve a draw =>
      cases served_of_serve stepped with
      | skipped head stopped awaited =>
          refine ⟨stage, ?_, .skip⟩
          intro b
          rcases eq_or_ne b a with rfl | other
          · simpa using holds_of_skipped (staged b) head stopped awaited
          · simpa [other] using staged b
      | @handled request rest out head handled present =>
          have answer : request = .connect a → out.reply = .id draw := by
            rintro rfl
            exact ChatServer.reply_of_handle handled
          obtain ⟨after, holds, serves⟩ := serves_of_outbox (staged a) head present answer
          refine ⟨Function.update stage a after, ?_, .serve head handled present serves⟩
          intro b
          rcases eq_or_ne b a with rfl | other
          · simpa using holds.receive _
          · simpa [other] using (staged b).receive _

/-- An invariant of the state and the stages, along runs whose steps meet a condition. -/
theorem exists_staged {condition : State ρ → Label ρ → Prop}
    (Inv : State ρ → (ρ → Stage) → Prop) (initial : Inv new fun _ => .idle)
    (step : ∀ state stage label next nextStage, state.Staged stage → Inv state stage →
      condition state label → Progress state stage label next nextStage → Inv next nextStage)
    {history : List (Label ρ)} {state : State ρ} (run : (system ρ).run? history = some state)
    (meets : (system ρ).Meets condition history) :
    ∃ stage, state.Staged stage ∧ Inv state stage := by
  refine (system ρ).invariant_of_meets
    (fun state => ∃ stage, state.Staged stage ∧ Inv state stage) ⟨_, staged_new, initial⟩ ?_ run meets
  rintro state label next ⟨stage, staged, inv⟩ allowed stepped
  obtain ⟨nextStage, nextStaged, progress⟩ := progress_of_step? staged stepped
  exact ⟨nextStage, nextStaged, step state stage label next nextStage staged inv allowed progress⟩

/-! ## What the server can rely on -/

/--
The server alone makes this run; an id that is registered or in a room was
given to a session, which is the one it is registered for.
-/
structure Orderly (state : State ρ) (stage : ρ → Stage) : Prop where
  run : (ChatServer.system ρ).run? (requests state.handled) = some state.server
  drawn : ∀ a id, (stage a).granted = some id → id ∈ draws state.handled
  recipients : ∀ id a, state.server.sessions.lookup id = some a → (stage a).granted = some id
  members : ∀ id room, state.server.Member id room → ∃ a, (stage a).granted = some id
  unique : (draws state.handled).Nodup →
    ∀ a b id, (stage a).granted = some id → (stage b).granted = some id → a = b
  tracks : (draws state.handled).Nodup → ∃ directory, state.server.Tracks directory

omit [DecidableEq ρ] in
theorem orderly_new : (new : State ρ).Orderly fun _ => .idle where
  run := rfl
  drawn _ _ granted := by cases granted
  recipients _ _ registered := by cases registered
  members id room inside := (ChatServer.default_not_member id room inside).elim
  unique _ _ _ _ granted := by cases granted
  tracks _ := ⟨_, ChatServer.default_tracks⟩

theorem granted_update_of_eq {stage : ρ → Stage} {a : ρ} {next : Stage}
    (same : next.granted = (stage a).granted) (b : ρ) :
    (Function.update stage a next b).granted = (stage b).granted := by
  rcases eq_or_ne b a with rfl | other
  · simpa using same
  · simp [other]

namespace Orderly

variable {state : State ρ} {stage : ρ → Stage} {a : ρ} {draw : Nat} {request : Request ρ}
  {out : Outcome ρ} {next : Stage} {node : ρ → Node ρ}

omit [DecidableEq ρ] in
theorem run_snoc (orderly : state.Orderly stage)
    (handled : state.server.handle draw request = some out) :
    (ChatServer.system ρ).run?
      (requests (state.handled ++ [⟨a, draw, request, out.sent⟩])) = some out.server := by
  rw [requests_snoc, (ChatServer.system ρ).run?_snoc, orderly.run]
  exact ChatServer.step?_eq_some.mpr ⟨out, handled, rfl⟩

omit [DecidableEq ρ] in
theorem unused (orderly : state.Orderly stage) (fresh : draw ∉ draws state.handled) :
    state.server.sessions.lookup draw = none ∧ ∀ room, ¬ state.server.Member draw room := by
  constructor
  · by_contra registered
    obtain ⟨a, found⟩ := Option.ne_none_iff_exists'.mp registered
    exact fresh (orderly.drawn a draw (orderly.recipients draw a found))
  · intro room inside
    obtain ⟨a, granted⟩ := orderly.members draw room inside
    exact fresh (orderly.drawn a draw granted)

theorem connect (orderly : state.Orderly stage)
    (handled : state.server.handle draw (.connect a) = some out)
    (waiting : (stage a).granted = none) (granted : next.granted = some draw) :
    (State.mk out.server node (state.handled ++ [⟨a, draw, .connect a, out.sent⟩])).Orderly
      (Function.update stage a next) := by
  have others : ∀ b id, (stage b).granted = some id → b ≠ a := by
    rintro b id given rfl
    cases waiting.symm.trans given
  have kept : ∀ b id, (stage b).granted = some id →
      (Function.update stage a next b).granted = some id := by
    intro b id given
    rw [Function.update_of_ne (others b id given)]
    exact given
  have here : (Function.update stage a next a).granted = some draw := by simpa using granted
  have given : ∀ b id, (Function.update stage a next b).granted = some id →
      b = a ∧ id = draw ∨ b ≠ a ∧ (stage b).granted = some id := by
    intro b id given
    rcases eq_or_ne b a with rfl | other
    · exact Or.inl ⟨rfl, Option.some.inj (given.symm.trans here)⟩
    · rw [Function.update_of_ne other] at given
      exact Or.inr ⟨other, given⟩
  have drawn : draws (state.handled ++ [⟨a, draw, .connect a, out.sent⟩]) =
      draws state.handled ++ [draw] := draws_connect state.handled a a draw out.sent
  constructor
  · exact orderly.run_snoc handled
  · intro b id granted
    rw [drawn]
    rcases given b id granted with ⟨-, rfl⟩ | ⟨-, before⟩
    · exact List.mem_append_right _ List.mem_cons_self
    · exact List.mem_append_left _ (orderly.drawn b id before)
  · intro id b registered
    rw [ChatServer.lookup_of_handle handled, ChatServer.lookupAfter] at registered
    split at registered
    · rename_i same
      cases registered
      rw [same]
      exact here
    · exact kept b id (orderly.recipients id b registered)
  · intro id room inside
    rcases (ChatServer.member_of_handle handled id room).mp inside with before | ⟨rfl, -⟩
    · obtain ⟨b, granted⟩ := orderly.members id room before
      exact ⟨b, kept b id granted⟩
    · exact ⟨a, here⟩
  · intro distinct b c id first second
    rw [drawn] at distinct
    obtain ⟨earlier, fresh⟩ := fresh_of_nodup distinct
    have new : ∀ b, (stage b).granted ≠ some draw := fun b granted =>
      fresh (orderly.drawn b draw granted)
    rcases given b id first with ⟨rfl, rfl⟩ | ⟨-, firstBefore⟩
    · rcases given c id second with ⟨rfl, -⟩ | ⟨-, secondBefore⟩
      · rfl
      · exact absurd secondBefore (new c)
    · rcases given c id second with ⟨rfl, rfl⟩ | ⟨-, secondBefore⟩
      · exact absurd firstBefore (new b)
      · exact orderly.unique earlier b c id firstBefore secondBefore
  · intro distinct
    rw [drawn] at distinct
    obtain ⟨earlier, fresh⟩ := fresh_of_nodup distinct
    obtain ⟨directory, tracks⟩ := orderly.tracks earlier
    exact ⟨_, tracks.connect (orderly.unused fresh).2 handled⟩

theorem other (orderly : state.Orderly stage) (other : ∀ b, request ≠ .connect b)
    (handled : state.server.handle draw request = some out)
    (serves : Serves a draw (stage a) request next) :
    (State.mk out.server node (state.handled ++ [⟨a, draw, request, out.sent⟩])).Orderly
      (Function.update stage a next) := by
  have same := granted_update_of_eq (serves.granted_eq other)
  have drawn : draws (state.handled ++ [⟨a, draw, request, out.sent⟩]) = draws state.handled :=
    draws_other other state.handled a draw out.sent
  constructor
  · exact orderly.run_snoc handled
  · intro b id granted
    rw [drawn]
    rw [same] at granted
    exact orderly.drawn b id granted
  · intro id b registered
    rw [same]
    apply orderly.recipients id b
    rw [ChatServer.lookup_of_handle handled] at registered
    exact ChatServer.lookup_of_lookupAfter other registered
  · intro id room inside
    rw [ChatServer.member_of_handle handled] at inside
    rcases ChatServer.member_of_memberAfter other inside with before | rfl
    · obtain ⟨b, granted⟩ := orderly.members id room before
      exact ⟨b, (same b).trans granted⟩
    · obtain ⟨old, opened, -⟩ := serves.of_join
      refine ⟨a, (same a).trans ?_⟩
      rw [opened]
      rfl
  · intro distinct b c id first second
    rw [same] at first second
    rw [drawn] at distinct
    exact orderly.unique distinct b c id first second
  · intro distinct
    rw [drawn] at distinct
    obtain ⟨directory, tracks⟩ := orderly.tracks distinct
    exact ⟨_, tracks.handle (fun b impossible => absurd impossible (other b)) handled⟩

theorem step (orderly : state.Orderly stage) {label : Label ρ} {after : State ρ}
    {nextStage : ρ → Stage} (progress : Progress state stage label after nextStage) :
    after.Orderly nextStage := by
  cases progress with
  | session moves =>
      have same := granted_update_of_eq moves.granted_eq
      constructor
      · exact orderly.run
      · intro b id granted
        rw [same] at granted
        exact orderly.drawn b id granted
      · intro id b registered
        rw [same]
        exact orderly.recipients id b registered
      · intro id room inside
        obtain ⟨b, granted⟩ := orderly.members id room inside
        exact ⟨b, (same b).trans granted⟩
      · intro distinct b c id first second
        rw [same] at first second
        exact orderly.unique distinct b c id first second
      · exact orderly.tracks
  | @serve a draw request rest out next node head handled present serves =>
      cases request with
      | connect b =>
          obtain ⟨rfl, waiting, granted⟩ := serves.of_connect
          exact orderly.connect handled waiting granted
      | _ => exact orderly.other nofun handled serves
  | skip =>
      exact ⟨orderly.run, orderly.drawn, orderly.recipients, orderly.members, orderly.unique,
        orderly.tracks⟩

end Orderly

theorem exists_orderly {history : List (Label ρ)} {state : State ρ}
    (run : (system ρ).run? history = some state) :
    ∃ stage, state.Staged stage ∧ state.Orderly stage :=
  exists_staged Orderly orderly_new
    (fun _ _ _ _ _ _ orderly _ progress => orderly.step progress) run ((system ρ).meets_true history)

end State

end RustDemo.Chat
