import Mathlib.Logic.Function.Basic
import RustDemo.Transition.System

/-!
# The counter

`main` starts ten threads, here any number, that share a pool of connections.
Each thread takes a connection, increments the counter in the database, prints
what it got and gives the connection back; `main` waits for one thread after the
other.  The statements of the threads and those of other clients come in any
order, and every call of a thread may fail, which is a panic of its `unwrap`.

Two things are assumed of code that is not here.  An `INCR` of Redis is one step
that adds one and answers the sum, or an error when the counter is at its
maximum.  The pool of `r2d2` gives out a connection only while it has one that
nobody uses, and has it back when the thread drops it, in a panic as well.
-/

namespace RustDemo.RedisDemo

open RustDemo.Transition

inductive Thread where
  | absent
  | started
  | connected
  | increased (n : Int)
  | ended (n : Int)
  | panicked
deriving DecidableEq

/-- Where `main` stands in its two loops. -/
inductive Main where
  | spawning (i : Nat)
  | joining (i : Nat)
  | returned
  | panicked
deriving DecidableEq

/-- The database, the connections of the pool that nobody uses, the threads and what they print. -/
structure Demo where
  counter : Int
  idle : Nat
  threads : Nat → Thread
  main : Main
  printed : List Int

/-- What happens next; the database may have executed an `incr` whose answer is lost. -/
inductive Event where
  | main
  | get (k : Nat)
  | getFails (k : Nat)
  | incr (k : Nat)
  | incrFails (k : Nat) (executed : Bool)
  | print (k : Nat)
  | otherClient
deriving DecidableEq

namespace Demo

/-- The largest number that the database counts to. -/
def maxCounter : Int := 9223372036854775807

def setThread (demo : Demo) (k : Nat) (thread : Thread) : Demo :=
  { demo with threads := Function.update demo.threads k thread }

/-- The next round of the loop in which `main` stands; it waits for a thread that runs. -/
def mainStep? (threads : Nat) (demo : Demo) : Option Demo :=
  match demo.main with
  | .spawning i =>
      if i < threads then some { demo.setThread i .started with main := .spawning (i + 1) }
      else some { demo with main := .joining 0 }
  | .joining i =>
      if i < threads then
        match demo.threads i with
        | .ended _ => some { demo with main := .joining (i + 1) }
        | .panicked => some { demo with main := .panicked }
        | _ => none
      else some { demo with main := .returned }
  | .returned => none
  | .panicked => none

/--
Other clients of the counter do nothing but increment it, each time by one, so
that many increments are many events.
-/
def step? (threads : Nat) (demo : Demo) : Event → Option Demo
  | .main => demo.mainStep? threads
  | .get k =>
      match demo.threads k with
      | .started =>
          if 0 < demo.idle then some { demo.setThread k .connected with idle := demo.idle - 1 }
          else none
      | _ => none
  | .getFails k =>
      match demo.threads k with
      | .started => some (demo.setThread k .panicked)
      | _ => none
  | .incr k =>
      match demo.threads k with
      | .connected =>
          if demo.counter < maxCounter then
            some { demo.setThread k (.increased (demo.counter + 1)) with
              counter := demo.counter + 1 }
          else none
      | _ => none
  | .incrFails k executed =>
      match demo.threads k with
      | .connected =>
          some { demo.setThread k .panicked with
            counter := if executed ∧ demo.counter < maxCounter then demo.counter + 1 else demo.counter
            idle := demo.idle + 1 }
      | _ => none
  | .print k =>
      match demo.threads k with
      | .increased n =>
          some { demo.setThread k (.ended n) with
            printed := demo.printed ++ [n]
            idle := demo.idle + 1 }
      | _ => none
  | .otherClient =>
      if demo.counter < maxCounter then some { demo with counter := demo.counter + 1 } else none

def new (counter : Int) (poolSize : Nat) : Demo := ⟨counter, poolSize, fun _ => .absent, .spawning 0, []⟩

/-- Every order of what the threads, `main` and other clients do. -/
def system (threads poolSize : Nat) (counter : Int) : System Demo Event :=
  ⟨new counter poolSize, step? threads⟩

inductive Stepped (threads : Nat) (demo : Demo) : Event → Demo → Prop where
  | spawned {i : Nat} (turn : demo.main = .spawning i) (within : i < threads) :
      Stepped threads demo .main { demo.setThread i .started with main := .spawning (i + 1) }
  | allSpawned {i : Nat} (turn : demo.main = .spawning i) (all : ¬ i < threads) :
      Stepped threads demo .main { demo with main := .joining 0 }
  | joined {i : Nat} {n : Int} (turn : demo.main = .joining i) (within : i < threads)
      (ended : demo.threads i = .ended n) :
      Stepped threads demo .main { demo with main := .joining (i + 1) }
  | failed {i : Nat} (turn : demo.main = .joining i) (within : i < threads)
      (panicked : demo.threads i = .panicked) :
      Stepped threads demo .main { demo with main := .panicked }
  | returned {i : Nat} (turn : demo.main = .joining i) (all : ¬ i < threads) :
      Stepped threads demo .main { demo with main := .returned }
  | got {k : Nat} (started : demo.threads k = .started) (idle : 0 < demo.idle) :
      Stepped threads demo (.get k) { demo.setThread k .connected with idle := demo.idle - 1 }
  | getFailed {k : Nat} (started : demo.threads k = .started) :
      Stepped threads demo (.getFails k) (demo.setThread k .panicked)
  | increased {k : Nat} (connected : demo.threads k = .connected) :
      Stepped threads demo (.incr k)
        { demo.setThread k (.increased (demo.counter + 1)) with counter := demo.counter + 1 }
  | incrFailed {k : Nat} {executed : Bool} (connected : demo.threads k = .connected) (counter : Int)
      (counts : counter = demo.counter + 1 ∨ counter = demo.counter) :
      Stepped threads demo (.incrFails k executed)
        { demo.setThread k .panicked with counter := counter, idle := demo.idle + 1 }
  | printed {k : Nat} {n : Int} (increased : demo.threads k = .increased n) :
      Stepped threads demo (.print k)
        { demo.setThread k (.ended n) with printed := demo.printed ++ [n], idle := demo.idle + 1 }
  | otherClient : Stepped threads demo .otherClient { demo with counter := demo.counter + 1 }

theorem stepped_of_step? {threads : Nat} {demo next : Demo} {event : Event}
    (steps : demo.step? threads event = some next) : Stepped threads demo event next := by
  cases event with
  | main =>
      rw [step?, mainStep?] at steps
      split at steps
      · rename_i turn
        split at steps <;> cases steps
        · rename_i within
          exact .spawned turn within
        · rename_i all
          exact .allSpawned turn all
      · rename_i turn
        split at steps
        · rename_i within
          split at steps <;> cases steps
          · rename_i ended
            exact .joined turn within ended
          · rename_i panicked
            exact .failed turn within panicked
        · rename_i all
          cases steps
          exact .returned turn all
      · cases steps
      · cases steps
  | get k =>
      rw [step?] at steps
      split at steps
      · rename_i started
        split at steps <;> cases steps
        rename_i idle
        exact .got started idle
      · cases steps
  | getFails k =>
      rw [step?] at steps
      split at steps <;> cases steps
      rename_i started
      exact .getFailed started
  | incr k =>
      rw [step?] at steps
      split at steps
      · rename_i connected
        split at steps <;> cases steps
        exact .increased connected
      · cases steps
  | incrFails k executed =>
      rw [step?] at steps
      split at steps <;> cases steps
      rename_i connected
      refine .incrFailed connected _ ?_
      split
      · exact Or.inl rfl
      · exact Or.inr rfl
  | print k =>
      rw [step?] at steps
      split at steps <;> cases steps
      rename_i increased
      exact .printed increased
  | otherClient =>
      rw [step?] at steps
      split at steps <;> cases steps
      exact .otherClient

end Demo

/-- The threads that `main` has started. -/
def Main.spawned (threads : Nat) : Main → Nat
  | .spawning i => i
  | _ => threads

/-- The threads for which `main` has waited. -/
def Main.joined (threads : Nat) : Main → Nat
  | .joining i => i
  | .returned => threads
  | _ => 0

namespace Demo

def Running : Thread → Prop
  | .started | .connected | .increased _ => True
  | _ => False

/-- `main` starts the threads in order, and waits until those before it have ended. -/
structure InOrder (threads : Nat) (demo : Demo) : Prop where
  absent : ∀ k, demo.threads k = .absent ↔ demo.main.spawned threads ≤ k
  within : demo.main.spawned threads ≤ threads
  joined : ∀ k, k < demo.main.joined threads → ∃ n, demo.threads k = .ended n
  failed : demo.main = .panicked → ∃ k, demo.threads k = .panicked

theorem InOrder.absent_next {threads i : Nat} {demo : Demo} (inOrder : InOrder threads demo)
    (turn : demo.main = .spawning i) : demo.threads i = .absent := by
  rw [inOrder.absent i, turn]
  exact Nat.le_refl i

theorem InOrder.move {threads : Nat} {demo next : Demo} (inOrder : InOrder threads demo) {k : Nat}
    {thread : Thread} (running : Running (demo.threads k)) (present : thread ≠ .absent)
    (moved : next.threads = Function.update demo.threads k thread) (main : next.main = demo.main) :
    InOrder threads next := by
  obtain ⟨absent, within, joined, failed⟩ := inOrder
  constructor
  · intro j
    rw [moved, main, ← absent j]
    by_cases here : j = k
    · subst here
      rw [Function.update_self]
      refine iff_of_false present fun gone => ?_
      rw [gone] at running
      exact running
    · rw [Function.update_of_ne here]
  · rw [main]
    exact within
  · intro j before
    rw [main] at before
    obtain ⟨n, ended⟩ := joined j before
    have here : j ≠ k := by
      rintro rfl
      rw [ended] at running
      exact running
    rw [moved, Function.update_of_ne here]
    exact ⟨n, ended⟩
  · intro panicked
    obtain ⟨j, dead⟩ := failed (main ▸ panicked)
    have here : j ≠ k := by
      rintro rfl
      rw [dead] at running
      exact running
    rw [moved]
    exact ⟨j, (Function.update_of_ne here ..).trans dead⟩

theorem inOrder_step {threads : Nat} {demo next : Demo} {event : Event}
    (inOrder : InOrder threads demo) (steps : demo.step? threads event = some next) :
    InOrder threads next := by
  cases stepped_of_step? steps with
  | @spawned i turn below =>
      obtain ⟨absent, within, joined, failed⟩ := inOrder
      rw [turn] at absent
      refine ⟨fun j => ?_, below, nofun, nofun⟩
      change Function.update demo.threads i _ j = _ ↔ i + 1 ≤ j
      by_cases here : j = i
      · subst here
        rw [Function.update_self]
        exact iff_of_false (by rintro ⟨⟩) (Nat.not_succ_le_self j)
      · rw [Function.update_of_ne here, absent j]
        change i ≤ j ↔ i + 1 ≤ j
        omega
  | @allSpawned i turn all =>
      obtain ⟨absent, within, joined, failed⟩ := inOrder
      rw [turn] at absent within
      change i ≤ threads at within
      have whole : i = threads := by omega
      subst whole
      exact ⟨absent, Nat.le_refl _, nofun, nofun⟩
  | @joined i n turn below ended =>
      obtain ⟨absent, within, joined, failed⟩ := inOrder
      rw [turn] at absent joined
      refine ⟨absent, Nat.le_refl _, fun j before => ?_, nofun⟩
      rcases Nat.lt_succ_iff_lt_or_eq.mp before with earlier | now
      · exact joined j earlier
      · exact ⟨n, now ▸ ended⟩
  | @failed i turn below panicked =>
      obtain ⟨absent, within, joined, failed⟩ := inOrder
      rw [turn] at absent
      exact ⟨absent, Nat.le_refl _, nofun, fun _ => ⟨i, panicked⟩⟩
  | @returned i turn all =>
      obtain ⟨absent, within, joined, failed⟩ := inOrder
      rw [turn] at absent joined
      refine ⟨absent, Nat.le_refl _, fun j before => joined j ?_, nofun⟩
      change j < i
      change j < threads at before
      omega
  | got started idle =>
      exact inOrder.move (started ▸ trivial) (by rintro ⟨⟩) rfl rfl
  | getFailed started =>
      exact inOrder.move (started ▸ trivial) (by rintro ⟨⟩) rfl rfl
  | increased connected =>
      exact inOrder.move (connected ▸ trivial) (by rintro ⟨⟩) rfl rfl
  | incrFailed connected counter counts =>
      exact inOrder.move (connected ▸ trivial) (by rintro ⟨⟩) rfl rfl
  | printed increased =>
      exact inOrder.move (increased ▸ trivial) (by rintro ⟨⟩) rfl rfl
  | otherClient =>
      obtain ⟨absent, within, joined, failed⟩ := inOrder
      exact ⟨absent, within, joined, failed⟩

theorem inOrder_of_run {threads poolSize : Nat} {counter : Int} {history : List Event} {demo : Demo}
    (run : (system threads poolSize counter).run? history = some demo) : InOrder threads demo :=
  (system threads poolSize counter).invariant (InOrder threads)
    ⟨fun k => iff_of_true rfl (Nat.zero_le k), Nat.zero_le _, nofun, nofun⟩
    (fun _ _ _ inOrder steps => inOrder_step inOrder steps) run

theorem InOrder.lt_of_running {threads : Nat} {demo : Demo} (inOrder : InOrder threads demo) {k : Nat}
    (running : Running (demo.threads k)) : k < threads := by
  by_contra beyond
  have gone := (inOrder.absent k).mpr (Nat.le_trans inOrder.within (Nat.le_of_not_lt beyond))
  rw [gone] at running
  exact running

end Demo

end RustDemo.RedisDemo
