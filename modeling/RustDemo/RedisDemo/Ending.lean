import Mathlib.Algebra.BigOperators.Group.Finset.Basic
import Mathlib.Algebra.Order.BigOperators.Group.Finset
import RustDemo.RedisDemo.Counter

/-!
# The end of the program

A thread has three statements before it, and `main` a round for each start and
each wait.  What is left of them goes down with every statement, and the
connections that the threads hold and the idle ones are together the pool.
-/

namespace RustDemo.RedisDemo

open RustDemo.Transition

namespace Demo

def total (weight : Thread → Nat) (count : Nat) (threads : Nat → Thread) : Nat :=
  ∑ k ∈ Finset.range count, weight (threads k)

theorem total_update (weight : Thread → Nat) {count k : Nat} {threads : Nat → Thread} {old : Thread}
    (within : k < count) (stood : threads k = old) (thread : Thread) :
    total weight count (Function.update threads k thread) + weight old =
      total weight count threads + weight thread := by
  have among := Finset.mem_range.mpr within
  rw [total, total, ← Finset.add_sum_erase _ _ among, ← Finset.add_sum_erase _ _ among, stood,
    Function.update_self]
  have others : ∀ j ∈ (Finset.range count).erase k,
      weight (Function.update threads k thread j) = weight (threads j) := by
    intro j among
    rw [Function.update_of_ne (Finset.ne_of_mem_erase among)]
  rw [Finset.sum_congr rfl others]
  omega

/-- The connections that a thread has. -/
def held : Thread → Nat
  | .connected | .increased _ => 1
  | _ => 0

def shown : Thread → Nat
  | .ended _ => 1
  | _ => 0

/-- The statements that a thread has before it. -/
def rank : Thread → Nat
  | .absent | .started => 3
  | .connected => 2
  | .increased _ => 1
  | _ => 0

/-- The rounds that `main` has before it. -/
def mainRank (threads : Nat) : Main → Nat
  | .spawning i => threads - i + 1 + threads + 1
  | .joining i => threads - i + 1
  | _ => 0

/-- The statements of the program itself. -/
def statements (history : List Event) : Nat := history.countP (· ≠ .otherClient)

/-- What the pool has, what was printed, and how many statements are left. -/
structure Accounts (threads poolSize : Nat) (made : Nat) (demo : Demo) : Prop where
  pool : demo.idle + total held threads demo.threads = poolSize
  printed : demo.printed.length = total shown threads demo.threads
  left : made + total rank threads demo.threads + mainRank threads demo.main ≤ 5 * threads + 2

theorem Accounts.move {threads poolSize made k : Nat} {demo next : Demo} {old thread : Thread}
    (accounts : Accounts threads poolSize made demo) (within : k < threads)
    (stood : demo.threads k = old) (moved : next.threads = Function.update demo.threads k thread)
    (main : next.main = demo.main) (pool : next.idle + held thread = demo.idle + held old)
    (printed : next.printed.length + shown old = demo.printed.length + shown thread)
    (spends : rank thread < rank old) : Accounts threads poolSize (made + 1) next := by
  have connections := total_update held within stood thread
  have endings := total_update shown within stood thread
  have ranks := total_update rank within stood thread
  rw [← moved] at connections endings ranks
  have before := accounts.pool
  have shownBefore := accounts.printed
  have left := accounts.left
  refine ⟨by omega, by omega, ?_⟩
  rw [main]
  omega

theorem Accounts.round {threads poolSize made : Nat} {demo next : Demo}
    (accounts : Accounts threads poolSize made demo) (same : next.threads = demo.threads)
    (idle : next.idle = demo.idle) (printed : next.printed = demo.printed)
    (spends : mainRank threads next.main < mainRank threads demo.main) :
    Accounts threads poolSize (made + 1) next := by
  have left := accounts.left
  refine ⟨?_, ?_, ?_⟩
  · rw [idle, same]
    exact accounts.pool
  · rw [printed, same]
    exact accounts.printed
  · rw [same]
    omega

theorem accounts_step {threads poolSize made : Nat} {demo next : Demo} {event : Event}
    (accounts : Accounts threads poolSize made demo) (inOrder : InOrder threads demo)
    (steps : demo.step? threads event = some next) :
    Accounts threads poolSize (made + statements [event]) next := by
  have running {k : Nat} {old : Thread} (stood : demo.threads k = old) (runs : Running old) :
      k < threads := inOrder.lt_of_running (stood ▸ runs)
  cases stepped_of_step? steps with
  | @spawned i turn below =>
      have gone := inOrder.absent_next turn
      have connections := total_update held below gone .started
      have endings := total_update shown below gone .started
      have ranks := total_update rank below gone .started
      obtain ⟨pool, printed, left⟩ := accounts
      have one : statements [.main] = 1 := rfl
      rw [turn] at left
      simp only [held, shown, rank, mainRank] at connections endings ranks left
      constructor
      · dsimp only [setThread]
        omega
      · dsimp only [setThread]
        omega
      · simp only [setThread, mainRank]
        omega
  | @allSpawned i turn all =>
      refine accounts.round rfl rfl rfl ?_
      rw [turn]
      simp only [mainRank]
      omega
  | @joined i n turn below ended =>
      refine accounts.round rfl rfl rfl ?_
      rw [turn]
      simp only [mainRank]
      omega
  | @failed i turn below panicked =>
      refine accounts.round rfl rfl rfl ?_
      rw [turn]
      exact Nat.succ_pos _
  | @returned i turn all =>
      refine accounts.round rfl rfl rfl ?_
      rw [turn]
      exact Nat.succ_pos _
  | @got k started idle =>
      refine accounts.move (running started trivial) started rfl rfl ?_ rfl (by decide)
      change demo.idle - 1 + 1 = demo.idle
      omega
  | getFailed started => exact accounts.move (running started trivial) started rfl rfl rfl rfl (by decide)
  | increased connected =>
      exact accounts.move (running connected trivial) connected rfl rfl rfl rfl Nat.one_lt_two
  | incrFailed connected counter counts =>
      exact accounts.move (running connected trivial) connected rfl rfl rfl rfl (by decide)
  | printed increased =>
      refine accounts.move (running increased trivial) increased rfl rfl rfl ?_ Nat.one_pos
      exact List.length_append
  | otherClient => exact ⟨accounts.pool, accounts.printed, accounts.left⟩

section Runs

variable {threads poolSize : Nat} {counter : Int} {history : List Event} {demo : Demo}

theorem accounts_of_run (run : (system threads poolSize counter).run? history = some demo) :
    Accounts threads poolSize (statements history) demo := by
  refine (system threads poolSize counter).run?_induction
    (motive := fun history demo => Accounts threads poolSize (statements history) demo) ?_ ?_ run
  · have weigh (weight : Thread → Nat) :
        total weight threads (new counter poolSize).threads = threads * weight .absent := by
      have same : ∀ k ∈ Finset.range threads,
          weight ((new counter poolSize).threads k) = weight .absent := fun _ _ => rfl
      rw [total, Finset.sum_const_nat same, Finset.card_range]
    refine ⟨?_, ?_, ?_⟩
    · change poolSize + total held threads (new counter poolSize).threads = poolSize
      rw [weigh]
      rfl
    · change 0 = total shown threads (new counter poolSize).threads
      rw [weigh]
      rfl
    · change 0 + total rank threads (new counter poolSize).threads + (threads - 0 + 1 + threads + 1) ≤ _
      rw [weigh]
      simp only [rank]
      omega
  · intro earlier middle event next reached accounts steps
    rw [statements, List.countP_append]
    exact accounts_step accounts (inOrder_of_run reached) steps

/-- A statement of the program that is no failure. -/
def Regular : Event → Prop
  | .main | .get _ | .incr _ | .print _ => True
  | _ => False

def GoesOn (threads : Nat) (demo : Demo) : Prop :=
  ∃ event, Regular event ∧ (demo.step? threads event).isSome

theorem goesOn_of_held {k : Nat} (holds : held (demo.threads k) ≠ 0)
    (below : demo.counter < maxCounter) : GoesOn threads demo := by
  cases stands : demo.threads k with
  | connected =>
      refine ⟨.incr k, trivial, ?_⟩
      rw [step?, stands]
      dsimp only
      rw [if_pos below]
      rfl
  | increased n =>
      refine ⟨.print k, trivial, ?_⟩
      rw [step?, stands]
      rfl
  | _ =>
      rw [stands] at holds
      exact absurd rfl holds

theorem goesOn_of_running (positive : 0 < poolSize) {made : Nat}
    (accounts : Accounts threads poolSize made demo) (inOrder : InOrder threads demo)
    (below : demo.counter < maxCounter) (running : demo.main ≠ .returned ∧ demo.main ≠ .panicked) :
    GoesOn threads demo := by
  cases turn : demo.main with
  | returned => exact absurd turn running.1
  | panicked => exact absurd turn running.2
  | spawning i =>
      refine ⟨.main, trivial, ?_⟩
      rw [step?, mainStep?, turn]
      dsimp only
      split <;> rfl
  | joining i =>
      by_cases within : i < threads
      · cases stands : demo.threads i with
        | absent =>
            have beyond := (inOrder.absent i).mp stands
            rw [turn] at beyond
            exact absurd within (Nat.not_lt.mpr beyond)
        | started =>
            by_cases idle : 0 < demo.idle
            · refine ⟨.get i, trivial, ?_⟩
              rw [step?, stands]
              dsimp only
              rw [if_pos idle]
              rfl
            · -- all connections are held by threads
              have pool := accounts.pool
              have some : total held threads demo.threads ≠ 0 := by omega
              obtain ⟨k, _, holds⟩ := Finset.exists_ne_zero_of_sum_ne_zero some
              exact goesOn_of_held holds below
        | connected => exact goesOn_of_held (k := i) (by rw [stands]; exact Nat.one_ne_zero) below
        | increased n => exact goesOn_of_held (k := i) (by rw [stands]; exact Nat.one_ne_zero) below
        | ended n =>
            refine ⟨.main, trivial, ?_⟩
            rw [step?, mainStep?, turn]
            dsimp only
            rw [if_pos within, stands]
            rfl
        | panicked =>
            refine ⟨.main, trivial, ?_⟩
            rw [step?, mainStep?, turn]
            dsimp only
            rw [if_pos within, stands]
            rfl
      · refine ⟨.main, trivial, ?_⟩
        rw [step?, mainStep?, turn]
        dsimp only
        rw [if_neg within]
        rfl

/--
The end.  The threads never use more connections than the pool has.  The program
makes at most five statements for each thread and two more.  Until `main` has
returned or panicked it can go on without a failure, unless the database cannot
count further; it returns only when all threads have ended, and panics only when
one has.
-/
theorem main_ends (positive : 0 < poolSize)
    (run : (system threads poolSize counter).run? history = some demo) :
    total held threads demo.threads ≤ poolSize ∧ statements history ≤ 5 * threads + 2 ∧
      (demo.counter < maxCounter → demo.main ≠ .returned ∧ demo.main ≠ .panicked →
        GoesOn threads demo) ∧
      (demo.main = .returned → ∀ k < threads, ∃ n, demo.threads k = .ended n) ∧
      (demo.main = .panicked → ∃ k, demo.threads k = .panicked) := by
  have accounts := accounts_of_run run
  have inOrder := inOrder_of_run run
  have pool := accounts.pool
  have left := accounts.left
  refine ⟨by omega, by omega, ?_, fun returned k below => ?_, inOrder.failed⟩
  · exact fun below running => goesOn_of_running positive accounts inOrder below running
  · refine inOrder.joined k ?_
    rw [returned]
    exact below

end Runs

def twoThreads : List Event :=
  [.main, .get 0, .main, .incr 0, .main, .print 0, .get 1, .main, .incr 1, .print 1, .main, .main]

theorem main_ends_two_threads :
    ∃ demo, (system 2 1 7).run? twoThreads = some demo ∧
      ∀ k < 2, ∃ n, demo.threads k = .ended n :=
  ⟨_, rfl, (@main_ends 2 1 7 twoThreads _ Nat.one_pos rfl).2.2.2.1 rfl⟩

end Demo

end RustDemo.RedisDemo
