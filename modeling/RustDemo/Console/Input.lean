import Mathlib.Data.Nat.Init
import RustDemo.Console.Commands
import RustDemo.Programs.Outcome

/-!
# The console loop

Each client reads its console in a thread of its own, and sends each line to
its actor.  The loop tests if `read_line` failed, and not if it read nothing:
it does not end with the input, but goes on to send empty lines.
-/

namespace RustDemo.Console

open RustDemo.Programs

/-- A line of the input; there is at least one byte in it. -/
abbrev Line := { text : String // text ≠ "" }

/-- What one `read_line` meets before the end of the input. -/
inductive ReadLine where
  | line (line : Line)
  | error
deriving DecidableEq

/-- `read_line` into an empty string: what stands in it, if there was no error. -/
def readLine : List ReadLine → Option String × List ReadLine
  | [] => (some "", [])
  | .line line :: stdin => (some line.val, stdin)
  | .error :: stdin => (none, stdin)

/-- The thread: the input to come, and the text of each `ClientCommand` sent so far. -/
structure Thread where
  stdin : List ReadLine
  sent : List String

/-- One round of the loop; when it ends the thread has sent the commands given. -/
def consoleRound (thread : Thread) : Outcome (Thread ⊕ List String) :=
  match readLine thread.stdin with
  | (none, _) => pure (.inr thread.sent)
  | (some cmd, stdin) => pure (.inl ⟨stdin, thread.sent ++ [cmd]⟩)

/-- The console loop, on the whole input. -/
def consoleLoop (stdin : List ReadLine) (fuel : Nat) : Outcome (List String) :=
  loop consoleRound fuel ⟨stdin, []⟩

def Comes (stdin : List ReadLine) (thread : Thread) : Prop := Visits consoleRound ⟨stdin, []⟩ thread

/-- What the actor writes for the commands it gets. -/
def requests (chatClient : ChatClient) (sent : List String) : List Chat.ChatRequest :=
  sent.filterMap (handle chatClient)

/-- The input of a console that is closed behind its lines. -/
def typed (lines : List Line) : List ReadLine := lines.map .line

theorem error_notMem_typed (lines : List Line) : .error ∉ typed lines := by
  intro inside
  obtain ⟨line, _, same⟩ := List.mem_map.mp inside
  cases same

theorem round_of_clean (thread : Thread) (clean : .error ∉ thread.stdin) :
    Round consoleRound (fun next => .error ∉ next.stdin) (fun _ => False) thread := by
  obtain ⟨stdin, sent⟩ := thread
  cases stdin with
  | nil => exact .again rfl clean
  | cons first stdin =>
      cases first with
      | line line => exact .again rfl fun inside => clean (List.mem_cons_of_mem _ inside)
      | error => exact absurd List.mem_cons_self clean

theorem runsForever_of_clean {stdin : List ReadLine} (clean : .error ∉ stdin) :
    RunsForever (consoleLoop stdin) := by
  intro fuel
  have start : .error ∉ (Thread.mk stdin []).stdin := clean
  rcases loop_safe round_of_clean start fuel with unfinished | ⟨_, _, impossible⟩
  · exact unfinished
  · exact impossible.elim

theorem exists_returns_of_error {stdin : List ReadLine} (failing : .error ∈ stdin)
    (sent : List String) : ∃ all, Returns (fun fuel => loop consoleRound fuel ⟨stdin, sent⟩) all := by
  induction stdin generalizing sent with
  | nil => cases failing
  | cons first stdin ih =>
      cases first with
      | line line =>
          rcases List.mem_cons.mp failing with here | later
          · cases here
          · obtain ⟨all, returns⟩ := ih later (sent ++ [line.val])
            exact ⟨all, .of_succ returns⟩
      | error => exact ⟨sent, .of_succ (returns_pure sent)⟩

/-- The thread stops at the first error of the input, and at nothing else. -/
theorem consoleLoop_returns_iff (stdin : List ReadLine) :
    (∃ sent, Returns (consoleLoop stdin) sent) ↔ .error ∈ stdin := by
  constructor
  · rintro ⟨sent, returns⟩
    by_contra clean
    exact (runsForever_of_clean clean).not_returns sent returns
  · intro failing
    exact exists_returns_of_error failing []

theorem visits_lines (lines : List Line) (sent : List String) :
    Visits consoleRound ⟨typed lines, sent⟩ ⟨[], sent ++ lines.map Subtype.val⟩ := by
  induction lines generalizing sent with
  | nil =>
      rw [List.map_nil, List.append_nil]
      exact .start
  | cons line lines ih =>
      have first : Visits consoleRound ⟨typed (line :: lines), sent⟩ ⟨typed lines, sent ++ [line.val]⟩ :=
        Visits.start.next rfl
      have later := first.trans (ih (sent ++ [line.val]))
      rw [List.append_assoc] at later
      exact later

theorem comes_behind (lines : List Line) (more : Nat) :
    Comes (typed lines) ⟨[], lines.map Subtype.val ++ List.replicate more ""⟩ := by
  induction more with
  | zero =>
      rw [List.replicate_zero, List.append_nil]
      exact visits_lines lines []
  | succ more ih =>
      have next : Comes (typed lines)
          ⟨[], lines.map Subtype.val ++ List.replicate more "" ++ [""]⟩ := Visits.next ih rfl
      rw [List.append_assoc, ← List.replicate_succ'] at next
      exact next

/-! ## What the actor writes -/

/-- The requests written are no more than the lines of the input. -/
def Bounded (chatClient : ChatClient) (lines : List Line) : Prop :=
  ∀ thread, Comes (typed lines) thread →
    (requests chatClient thread.sent).length ≤ lines.length

theorem requests_snoc (chatClient : ChatClient) (sent : List String) (cmd : String) :
    requests chatClient (sent ++ [cmd]) =
      requests chatClient sent ++ (handle chatClient cmd).toList := by
  rw [requests, List.filterMap_append]
  cases written : handle chatClient cmd with
  | none =>
      rw [List.filterMap_cons_none written]
      rfl
  | some request =>
      rw [List.filterMap_cons_some written]
      rfl

theorem length_requests_snoc_le (chatClient : ChatClient) (sent : List String) (cmd : String) :
    (requests chatClient (sent ++ [cmd])).length ≤ (requests chatClient sent).length + 1 := by
  rw [requests_snoc, List.length_append]
  cases handle chatClient cmd with
  | none => exact Nat.le_succ _
  | some request => exact Nat.le_refl _

/-- The requests written, and the lines that are not read yet, are no more than the lines. -/
def Within (lines : List Line) (thread : Thread) : Prop :=
  (requests .actorWsTcpChat thread.sent).length + thread.stdin.length ≤ lines.length

theorem Within.round {lines : List Line} (thread : Thread) (within : Within lines thread) :
    Round consoleRound (Within lines) (fun _ => True) thread := by
  obtain ⟨stdin, sent⟩ := thread
  cases stdin with
  | nil =>
      have silent : handle .actorWsTcpChat "" = none := rfl
      refine .again rfl ?_
      rw [Within, requests_snoc, silent, Option.toList_none, List.append_nil]
      exact within
  | cons first stdin =>
      cases first with
      | line line =>
          have one := length_requests_snoc_le .actorWsTcpChat sent line.val
          refine .again rfl (Nat.le_trans (Nat.add_le_add_right one _) ?_)
          rw [Nat.add_right_comm]
          exact within
      | error => exact .done rfl trivial

/-- `actor_ws_tcp_chat` writes nothing for the empty lines. -/
theorem bounded_actorWsTcpChat (lines : List Line) : Bounded .actorWsTcpChat lines := by
  intro thread comes
  have start : Within lines ⟨typed lines, []⟩ := by
    rw [Within, typed, List.length_map]
    exact Nat.le_of_eq (Nat.zero_add _)
  exact Nat.le_trans (Nat.le_add_right _ _) (Visits.invariant Within.round start comes)

/-- The other two write a message for each empty line. -/
theorem not_bounded {chatClient : ChatClient} (other : chatClient ≠ .actorWsTcpChat)
    (lines : List Line) : ¬ Bounded chatClient lines := by
  have empty : handle chatClient "" = some (.message "") := by
    cases chatClient with
    | client => rfl
    | actorChat => rfl
    | actorWsTcpChat => exact absurd rfl other
  intro bounded
  have many := bounded _ (comes_behind lines (lines.length + 1))
  have all : requests chatClient (List.replicate (lines.length + 1) "") =
      List.replicate (lines.length + 1) (.message "") := by
    rw [requests, List.filterMap_replicate_of_some empty]
  rw [requests, List.filterMap_append] at many
  rw [requests] at all
  rw [all, List.length_append, List.length_replicate] at many
  omega

/-- The thread sends its lines and stops, and the client writes no more requests than lines. -/
structure EndsWithInput (chatClient : ChatClient) (lines : List Line) : Prop where
  stops : Returns (consoleLoop (typed lines)) (lines.map Subtype.val)
  bounded : Bounded chatClient lines

/--
The end of the input.  No client stops its console loop there, whatever was
typed before: the thread goes on to send empty lines.  Only in
`actor_ws_tcp_chat` the requests stay within the number of lines.
-/
theorem console_goes_on (chatClient : ChatClient) (lines : List Line) :
    ¬ EndsWithInput chatClient lines ∧ RunsForever (consoleLoop (typed lines)) ∧
      (∀ more, Comes (typed lines) ⟨[], lines.map Subtype.val ++ List.replicate more ""⟩) ∧
      (Bounded chatClient lines ↔ chatClient = .actorWsTcpChat) := by
  have forever := runsForever_of_clean (error_notMem_typed lines)
  refine ⟨fun ends => forever.not_returns _ ends.stops, forever, comes_behind lines, ?_⟩
  constructor
  · intro bounded
    by_contra other
    exact not_bounded other lines bounded
  · rintro rfl
    exact bounded_actorWsTcpChat lines

/-- The console is closed at once, and the thread does not stop. -/
theorem console_closed_at_once :
    ¬ ∀ (chatClient : ChatClient) (lines : List Line), EndsWithInput chatClient lines := by
  intro ends
  have forever := runsForever_of_clean (error_notMem_typed [])
  exact forever.not_returns _ (ends .client []).stops

end RustDemo.Console
