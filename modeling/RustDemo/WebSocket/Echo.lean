import Mathlib.Data.Set.Card
import RustDemo.Transition.System

/-!
# The websocket echo server

Each connection has a `Server`, and all of them share one count.  A connection
takes its id from the count when it opens, and lowers the count when it closes:
the count stays the number of open connections, but an id can come again while
it is in use.
-/

namespace RustDemo.WebSocket

open RustDemo.Transition

structure Server where
  clientId : UInt32

namespace Server

/-- `on_open`: the handler, and the count that it sets.  A sum over `u32::MAX` is a panic. -/
def onOpen (_ : Server) (count : UInt32) : Option (Server × UInt32) :=
  if count.toNat + 1 < UInt32.size then some (⟨count + 1⟩, count + 1) else none

/-- `on_close`: the count that it sets.  A difference below zero is a panic. -/
def onClose (_ : Server) (count : UInt32) : Option UInt32 :=
  if 0 < count.toNat then some (count - 1) else none

end Server

/-- A connection with its handler: not open yet, open, or closed. -/
inductive Connection where
  | connecting (server : Server)
  | opened (server : Server)
  | closed (server : Server)

/-- The count, and all connections there will be, named by `κ`. -/
structure Echo (κ : Type) where
  count : UInt32
  connections : κ → Connection

inductive Event (κ : Type) where
  | onOpen (k : κ)
  | onClose (k : κ)

namespace Echo

variable {κ : Type} [DecidableEq κ]

/-- The count of `main`, and the handlers of its closure. -/
def new : Echo κ := ⟨0, fun _ => .connecting ⟨0⟩⟩

/-- Each connection opens once, and closes once after that. -/
def step? (echo : Echo κ) : Event κ → Option (Echo κ)
  | .onOpen k =>
      match echo.connections k with
      | .connecting server =>
          (server.onOpen echo.count).map fun (server, count) =>
            ⟨count, Function.update echo.connections k (.opened server)⟩
      | _ => none
  | .onClose k =>
      match echo.connections k with
      | .opened server =>
          (server.onClose echo.count).map fun count =>
            ⟨count, Function.update echo.connections k (.closed server)⟩
      | _ => none

/-- Any number of connections, and every order of what they do, with counts below `u32::MAX`. -/
def system : System (Echo κ) (Event κ) := ⟨new, step?⟩

inductive Stepped (echo : Echo κ) : Event κ → Echo κ → Prop where
  | opened {k : κ} {server : Server} (waits : echo.connections k = .connecting server)
      (bound : echo.count.toNat + 1 < UInt32.size) :
      Stepped echo (.onOpen k)
        ⟨echo.count + 1, Function.update echo.connections k (.opened ⟨echo.count + 1⟩)⟩
  | closed {k : κ} {server : Server} (live : echo.connections k = .opened server)
      (positive : 0 < echo.count.toNat) :
      Stepped echo (.onClose k)
        ⟨echo.count - 1, Function.update echo.connections k (.closed server)⟩

theorem stepped {echo next : Echo κ} {event : Event κ} (steps : echo.step? event = some next) :
    Stepped echo event next := by
  cases event with
  | onOpen k =>
      rw [step?] at steps
      split at steps
      · rename_i server waits
        obtain ⟨pair, opens, rfl⟩ := Option.map_eq_some_iff.mp steps
        obtain ⟨bound, same⟩ := Option.ite_none_right_eq_some.mp opens
        cases same
        exact .opened waits bound
      · cases steps
  | onClose k =>
      rw [step?] at steps
      split at steps
      · rename_i server live
        obtain ⟨count, closes, rfl⟩ := Option.map_eq_some_iff.mp steps
        obtain ⟨positive, same⟩ := Option.ite_none_right_eq_some.mp closes
        cases same
        exact .closed live positive
      · cases steps

def openConnections (echo : Echo κ) : Set κ := { k | ∃ server, echo.connections k = .opened server }

def Counted (echo : Echo κ) : Prop := echo.openConnections.encard = echo.count.toNat

omit [DecidableEq κ] in
theorem Counted.no_underflow {echo : Echo κ} (counted : echo.Counted) {k : κ} {server : Server}
    (live : echo.connections k = .opened server) : server.onClose echo.count ≠ none := by
  have positive : 0 < echo.count.toNat := by
    apply Nat.pos_of_ne_zero
    intro none
    rw [Counted, none, Nat.cast_zero, Set.encard_eq_zero] at counted
    exact Set.notMem_empty k (counted ▸ ⟨server, live⟩)
  rw [Server.onClose, if_pos positive]
  exact Option.some_ne_none _

theorem openConnections_opened (echo : Echo κ) (k : κ) (server : Server) (count : UInt32) :
    openConnections ⟨count, Function.update echo.connections k (.opened server)⟩ =
      insert k echo.openConnections := by
  ext j
  by_cases same : j = k
  · simp [openConnections, same]
  · simp [openConnections, same]

theorem openConnections_closed (echo : Echo κ) (k : κ) (server : Server) (count : UInt32) :
    openConnections ⟨count, Function.update echo.connections k (.closed server)⟩ =
      echo.openConnections \ {k} := by
  ext j
  by_cases same : j = k
  · simp [openConnections, same]
  · simp [openConnections, same]

theorem Stepped.counted {echo next : Echo κ} {event : Event κ} (counted : echo.Counted)
    (stepped : Stepped echo event next) : next.Counted := by
  cases stepped with
  | @opened k server waits bound =>
      have fresh : k ∉ echo.openConnections := by
        rintro ⟨other, live⟩
        cases waits.symm.trans live
      have sum : (echo.count + 1).toNat = echo.count.toNat + 1 := by
        rw [UInt32.toNat_add]
        exact Nat.mod_eq_of_lt bound
      rw [Counted, openConnections_opened, Set.encard_insert_of_notMem fresh, counted, sum,
        Nat.cast_add_one]
  | @closed k server live positive =>
      have member : k ∈ echo.openConnections := ⟨server, live⟩
      have difference : (echo.count - 1).toNat + 1 = echo.count.toNat := by
        have one : (1 : UInt32) ≤ echo.count := UInt32.le_iff_toNat_le.mpr positive
        rw [UInt32.toNat_sub_of_le _ _ one]
        exact Nat.sub_add_cancel positive
      have total := Set.encard_sdiff_singleton_add_one member
      rw [counted, ← difference, Nat.cast_add_one] at total
      rw [Counted, openConnections_closed]
      exact WithTop.add_right_cancel ENat.one_ne_top total

omit [DecidableEq κ] in
theorem counted_new : (new : Echo κ).Counted := by
  have none : (new : Echo κ).openConnections = ∅ := by
    ext k
    simp [openConnections, new]
  rw [Counted, none, Set.encard_empty]
  rfl

/-! ## The ids -/

def Distinct (echo : Echo κ) : Prop :=
  ∀ j k first second, echo.connections j = .opened first → echo.connections k = .opened second →
    first.clientId = second.clientId → j = k

/-- The id that an opening connection gets is free. -/
def Free (echo : Echo κ) : Event κ → Prop
  | .onOpen _ => ∀ j server, echo.connections j = .opened server → server.clientId ≠ echo.count + 1
  | .onClose _ => True

theorem Stepped.distinct_iff {echo next : Echo κ} {event : Event κ} (distinct : echo.Distinct)
    (stepped : Stepped echo event next) : next.Distinct ↔ echo.Free event := by
  cases stepped with
  | @opened k server waits bound =>
      constructor
      · intro distinct j other live clash
        have apart : j ≠ k := by
          rintro rfl
          cases waits.symm.trans live
        apply apart
        apply distinct j k other ⟨echo.count + 1⟩ _ (Function.update_self ..) clash
        exact (Function.update_of_ne apart ..).trans live
      · intro free i j first second iLive jLive same
        dsimp only at iLive jLive
        by_cases iNew : i = k
        · by_cases jNew : j = k
          · exact iNew.trans jNew.symm
          · rw [iNew, Function.update_self] at iLive
            rw [Function.update_of_ne jNew] at jLive
            cases iLive
            exact absurd same.symm (free j second jLive)
        · rw [Function.update_of_ne iNew] at iLive
          by_cases jNew : j = k
          · rw [jNew, Function.update_self] at jLive
            cases jLive
            exact absurd same (free i first iLive)
          · rw [Function.update_of_ne jNew] at jLive
            exact distinct i j first second iLive jLive same
  | @closed k server live positive =>
      refine iff_of_true ?_ trivial
      have stays : ∀ i other, Function.update echo.connections k (.closed server) i = .opened other →
          echo.connections i = .opened other := by
        intro i other live
        by_cases here : i = k
        · rw [here, Function.update_self] at live
          cases live
        · rw [Function.update_of_ne here] at live
          exact live
      intro i j first second iLive jLive
      exact distinct i j first second (stays i first iLive) (stays j second jLive)

omit [DecidableEq κ] in
theorem distinct_new : (new : Echo κ).Distinct := by
  rintro j k first second ⟨⟩

def opens (events : List (Event κ)) : Nat :=
  events.countP fun event => match event with
    | .onOpen _ => true
    | .onClose _ => false

def closes (events : List (Event κ)) : Nat :=
  events.countP fun event => match event with
    | .onOpen _ => false
    | .onClose _ => true

/-- What came after the opening of a connection that has not closed since. -/
def Since (history : List (Event κ)) (k : κ) (later : List (Event κ)) : Prop :=
  ∃ earlier, history = earlier ++ .onOpen k :: later ∧ .onClose k ∉ later

/--
No connection opens when, since the opening of one that is still open, exactly
one connection more has closed than opened.
-/
def Spaced (history : List (Event κ)) : Prop :=
  ∀ early k late, history = early ++ .onOpen k :: late →
    ∀ j later, Since early j later → closes later ≠ opens later + 1

omit [DecidableEq κ] in
theorem since_snoc {history later : List (Event κ)} {event : Event κ} {k : κ} :
    Since (history ++ [event]) k later ↔ (event = .onOpen k ∧ later = []) ∨
      event ≠ .onClose k ∧ ∃ before, later = before ++ [event] ∧ Since history k before := by
  constructor
  · rintro ⟨earlier, split, open'⟩
    rcases List.eq_nil_or_concat later with rfl | ⟨before, last, rfl⟩
    · obtain ⟨-, same⟩ := List.append_inj' split rfl
      exact Or.inl ⟨(List.cons.inj same).1, rfl⟩
    · rw [List.concat_eq_append] at split open' ⊢
      rw [← List.cons_append, ← List.append_assoc] at split
      obtain ⟨start, same⟩ := List.append_inj' split rfl
      cases same
      refine Or.inr ⟨fun closes => open' (closes ▸ ?_), before, rfl, earlier, start, fun inside => ?_⟩
      · exact List.mem_append_right _ List.mem_cons_self
      · exact open' (List.mem_append_left _ inside)
  · rintro (⟨rfl, rfl⟩ | ⟨other, before, rfl, earlier, rfl, open'⟩)
    · exact ⟨history, rfl, List.not_mem_nil⟩
    · refine ⟨earlier, by rw [List.append_assoc, List.cons_append], fun inside => ?_⟩
      rcases List.mem_append.mp inside with before | now
      · exact open' before
      · exact other (List.mem_singleton.mp now).symm

omit [DecidableEq κ] in
theorem spaced_snoc {history : List (Event κ)} {event : Event κ} :
    Spaced (history ++ [event]) ↔ Spaced history ∧ ∀ k, event = .onOpen k →
      ∀ j later, Since history j later → closes later ≠ opens later + 1 := by
  constructor
  · intro spaced
    refine ⟨fun early k late split => spaced early k (late ++ [event]) ?_, fun k same => ?_⟩
    · rw [split, List.append_assoc, List.cons_append]
    · exact spaced history k [] (by rw [same])
  · rintro ⟨before, now⟩ early k late split
    rcases List.eq_nil_or_concat late with rfl | ⟨rest, last, rfl⟩
    · obtain ⟨start, same⟩ := List.append_inj' split rfl
      rw [← start]
      exact now k (List.cons.inj same).1
    · rw [List.concat_eq_append, ← List.cons_append, ← List.append_assoc] at split
      exact before early k rest (List.append_inj' split rfl).1

/--
A connection that is open has opened and not closed, and the count has moved away
from its id by as many as have opened and closed since.
-/
structure Numbered (history : List (Event κ)) (echo : Echo κ) : Prop where
  live : ∀ k server, echo.connections k = .opened server → ∃ later, Since history k later
  id : ∀ k later, Since history k later → ∃ server, echo.connections k = .opened server ∧
    opens later + server.clientId.toNat = closes later + echo.count.toNat

omit [DecidableEq κ] in
theorem numbered_new : Numbered [] (new : Echo κ) where
  live k server := by rintro ⟨⟩
  id k later := by
    rintro ⟨earlier, split, -⟩
    cases earlier <;> cases split

theorem Numbered.step {history : List (Event κ)} {echo next : Echo κ} {event : Event κ}
    (numbered : Numbered history echo) (stepped : Stepped echo event next) :
    Numbered (history ++ [event]) next := by
  cases stepped with
  | @opened k server waits bound =>
      have sum : (echo.count + 1).toNat = echo.count.toNat + 1 := by
        rw [UInt32.toNat_add]
        exact Nat.mod_eq_of_lt bound
      constructor
      · intro j other live
        dsimp only at live
        by_cases here : j = k
        · exact ⟨[], since_snoc.mpr (Or.inl ⟨by rw [here], rfl⟩)⟩
        · rw [Function.update_of_ne here] at live
          obtain ⟨later, since⟩ := numbered.live j other live
          exact ⟨_, since_snoc.mpr (Or.inr ⟨nofun, later, rfl, since⟩)⟩
      · intro j later since
        rcases since_snoc.mp since with ⟨same, rfl⟩ | ⟨-, before, rfl, was⟩
        · cases same
          exact ⟨_, Function.update_self .., rfl⟩
        · obtain ⟨other, live, moved⟩ := numbered.id j before was
          have apart : j ≠ k := by
            rintro rfl
            cases waits.symm.trans live
          refine ⟨other, (Function.update_of_ne apart ..).trans live, ?_⟩
          simp only [opens, closes, List.countP_append, List.countP_singleton, sum] at moved ⊢
          simp only [if_true, Bool.false_eq_true, if_false]
          omega
  | @closed k server live positive =>
      have difference : (echo.count - 1).toNat + 1 = echo.count.toNat := by
        have one : (1 : UInt32) ≤ echo.count := UInt32.le_iff_toNat_le.mpr positive
        rw [UInt32.toNat_sub_of_le _ _ one]
        exact Nat.sub_add_cancel positive
      constructor
      · intro j other still
        dsimp only at still
        have apart : j ≠ k := by
          rintro rfl
          rw [Function.update_self] at still
          cases still
        rw [Function.update_of_ne apart] at still
        obtain ⟨later, since⟩ := numbered.live j other still
        have notHere : Event.onClose k ≠ .onClose j := fun same => apart (Event.onClose.inj same).symm
        exact ⟨_, since_snoc.mpr (Or.inr ⟨notHere, later, rfl, since⟩)⟩
      · intro j later since
        rcases since_snoc.mp since with ⟨same, -⟩ | ⟨other, before, rfl, was⟩
        · cases same
        · obtain ⟨server, opened, moved⟩ := numbered.id j before was
          have apart : j ≠ k := fun same => other (same ▸ rfl)
          refine ⟨server, (Function.update_of_ne apart ..).trans opened, ?_⟩
          simp only [opens, closes, List.countP_append, List.countP_singleton] at moved ⊢
          simp only [if_true, Bool.false_eq_true, if_false]
          omega

theorem numbered_of_run {history : List (Event κ)} {echo : Echo κ}
    (run : system.run? history = some echo) : Numbered history echo :=
  system.run?_induction (motive := Numbered) numbered_new
    (fun _ _ _ _ _ numbered steps => numbered.step (stepped steps)) run

omit [DecidableEq κ] in
/-- The next id is in use just when the count is back at the value before that of its owner. -/
theorem Numbered.free_iff {history : List (Event κ)} {echo : Echo κ}
    (numbered : Numbered history echo) (bound : echo.count.toNat + 1 < UInt32.size) (k : κ) :
    echo.Free (.onOpen k) ↔ ∀ j later, Since history j later → closes later ≠ opens later + 1 := by
  have sum : (echo.count + 1).toNat = echo.count.toNat + 1 := by
    rw [UInt32.toNat_add]
    exact Nat.mod_eq_of_lt bound
  have clash : ∀ server : Server,
      server.clientId = echo.count + 1 ↔ server.clientId.toNat = echo.count.toNat + 1 := by
    intro server
    rw [← UInt32.toNat_inj, sum]
  constructor
  · intro free j later since
    obtain ⟨server, live, moved⟩ := numbered.id j later since
    have other := mt (clash server).mpr (free j server live)
    omega
  · intro spaced j server live same
    obtain ⟨later, since⟩ := numbered.live j server live
    obtain ⟨found, opened, moved⟩ := numbered.id j later since
    cases live.symm.trans opened
    have other := spaced j later since
    have equal := (clash server).mp same
    omega

theorem meets_free_iff {history : List (Event κ)} {echo : Echo κ}
    (run : system.run? history = some echo) : system.Meets Free history ↔ Spaced history := by
  refine system.run?_induction (motive := fun history _ =>
    (system.Meets Free history ↔ Spaced history)) ?_ ?_ run
  · refine iff_of_true system.meets_nil fun early k late split => ?_
    cases early <;> cases split
  · intro earlier middle event next reached ih steps
    rw [system.meets_snoc, spaced_snoc, ih]
    refine and_congr_right fun _ => ?_
    have numbered := numbered_of_run reached
    cases stepped steps with
    | @opened k server waits bound =>
        constructor
        · rintro free _ ⟨⟩
          exact (numbered.free_iff bound k).mp (free middle reached)
        · intro spaced state reaches
          cases reached.symm.trans reaches
          exact (numbered.free_iff bound k).mpr (spaced k rfl)
    | closed live positive => exact iff_of_true (fun _ _ => trivial) nofun

/--
The ids of the echo server.  In every run the count is the number of open
connections, so that it never falls below zero; and all open connections have
different ids in every state of the run just when no connection opens while one
is open since whose opening exactly one connection more has closed than opened.
-/
theorem always_distinct_iff {history : List (Event κ)} {echo : Echo κ}
    (run : system.run? history = some echo) :
    system.Always (fun echo => echo.Counted ∧
        (∀ k server, echo.connections k = .opened server → server.onClose echo.count ≠ none) ∧
        echo.Distinct) history ↔
      Spaced history := by
  have counted : ∀ {history : List (Event κ)} {echo : Echo κ},
      system.run? history = some echo → echo.Counted :=
    system.invariant Counted counted_new fun _ _ _ counted steps => (stepped steps).counted counted
  have same : system.Always (fun echo => echo.Counted ∧
        (∀ k server, echo.connections k = .opened server → server.onClose echo.count ≠ none) ∧
        echo.Distinct) history ↔ system.Always Distinct history := by
    refine system.always_congr fun earlier state reached => ?_
    have here := counted reached
    constructor
    · rintro ⟨-, -, distinct⟩
      exact distinct
    · intro distinct
      exact ⟨here, fun k server => here.no_underflow, distinct⟩
  rw [same, ← meets_free_iff run]
  exact system.always_iff_meets (fun _ => True) distinct_new trivial (fun _ _ _ _ _ => trivial)
    (fun _ _ _ _ distinct steps => (stepped steps).distinct_iff distinct) run

/-- The last one that opened closes first, so its id is free again. -/
theorem always_distinct_iff_reopened :
    system.Always (fun echo : Echo Nat => echo.Counted ∧
        (∀ k server, echo.connections k = .opened server → server.onClose echo.count ≠ none) ∧
        echo.Distinct) [.onOpen 0, .onOpen 1, .onClose 1, .onOpen 2] := by
  apply (always_distinct_iff rfl).mpr
  rintro (_ | ⟨_, _ | ⟨_, _ | ⟨_, early⟩⟩⟩) k late split j later ⟨earlier, first, stays⟩
  · cases earlier <;> cases first
  · cases split
    rcases earlier with _ | ⟨_, earlier⟩
    · cases first
      decide
    · cases earlier <;> cases first
  · cases split
  · rcases early with _ | ⟨_, early⟩
    · cases split
      rcases earlier with _ | ⟨_, _ | ⟨_, _ | ⟨_, earlier⟩⟩⟩
      · cases first
        decide
      · cases first
        exact absurd List.mem_cons_self stays
      · cases first
      · cases earlier <;> cases first
    · cases early <;> cases split

/-- The first of two connections closes: the third gets the id that the second has. -/
theorem id_given_twice :
    ¬ ∀ (history : List (Event Nat)) (echo : Echo Nat), system.run? history = some echo →
      echo.Counted ∧
        (∀ k server, echo.connections k = .opened server → server.onClose echo.count ≠ none) ∧
        echo.Distinct := by
  intro always
  obtain ⟨-, -, distinct⟩ := always [.onOpen 0, .onOpen 1, .onClose 0, .onOpen 2] _ rfl
  cases distinct 1 2 ⟨2⟩ ⟨2⟩ rfl rfl rfl

end Echo

end RustDemo.WebSocket
