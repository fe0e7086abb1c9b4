import Mathlib.Data.Int.Interval
import RustDemo.RedisDemo.Ending

/-!
# The numbers

Each number that a thread gets is above all that were given before, so no two
threads share one.  As long as nobody else counts, every number from the first
value on was given to a thread.
-/

namespace RustDemo.RedisDemo

open RustDemo.Transition

def Thread.number : Thread → Option Int
  | .increased n | .ended n => some n
  | _ => none

namespace Demo

/-- No number is given twice, each is above the first value, and what is printed are those of the ended. -/
structure Tickets (first : Int) (demo : Demo) : Prop where
  grown : first ≤ demo.counter
  own : ∀ j k n, (demo.threads j).number = some n → (demo.threads k).number = some n → j = k
  issued : ∀ k n, (demo.threads k).number = some n → first < n ∧ n ≤ demo.counter
  printed : ∀ n, n ∈ demo.printed ↔ ∃ k, demo.threads k = .ended n
  once : demo.printed.Nodup

def Gapless (first : Int) (demo : Demo) : Prop :=
  ∀ n, first < n → n ≤ demo.counter → ∃ k, (demo.threads k).number = some n

theorem Tickets.keep {first : Int} {demo next : Demo} (tickets : Tickets first demo)
    (numbers : ∀ k, (next.threads k).number = (demo.threads k).number)
    (grows : demo.counter ≤ next.counter)
    (ended : ∀ k n, next.threads k = .ended n ↔ demo.threads k = .ended n)
    (printed : next.printed = demo.printed) : Tickets first next := by
  obtain ⟨grown, own, issued, shown, once⟩ := tickets
  constructor
  · exact grown.trans grows
  · intro j k n mine other
    rw [numbers] at mine other
    exact own j k n mine other
  · intro k n got
    rw [numbers] at got
    obtain ⟨above, upTo⟩ := issued k n got
    exact ⟨above, upTo.trans grows⟩
  · intro n
    rw [printed, shown n]
    exact exists_congr fun k => (ended k n).symm
  · rw [printed]
    exact once

theorem numbers_update {threads : Nat → Thread} {k : Nat} {old thread : Thread}
    (stood : threads k = old) (before : old.number = none) (after : thread.number = none) :
    (∀ j, (Function.update threads k thread j).number = (threads j).number) ∧
      ∀ j n, Function.update threads k thread j = .ended n ↔ threads j = .ended n := by
  constructor
  · intro j
    by_cases here : j = k
    · subst here
      rw [Function.update_self, stood, before, after]
    · rw [Function.update_of_ne here]
  · intro j n
    by_cases here : j = k
    · subst here
      rw [Function.update_self]
      constructor
      · rintro rfl
        cases after
      · intro ended
        rw [← stood, ended] at before
        cases before
    · rw [Function.update_of_ne here]

/-- The number is above all that were given before, so nobody else has it. -/
theorem Tickets.increase {first : Int} {demo : Demo} {k : Nat} (tickets : Tickets first demo)
    (connected : demo.threads k = .connected) :
    Tickets first { demo.setThread k (.increased (demo.counter + 1)) with
      counter := demo.counter + 1 } := by
  obtain ⟨grown, own, issued, shown, once⟩ := tickets
  have fresh : ∀ j, (demo.threads j).number ≠ some (demo.counter + 1) := by
    intro j got
    have upTo := (issued j _ got).2
    omega
  have others {j : Nat} (other : j ≠ k) :
      (demo.setThread k (.increased (demo.counter + 1))).threads j = demo.threads j :=
    Function.update_of_ne other ..
  have here : (demo.setThread k (.increased (demo.counter + 1))).threads k =
      .increased (demo.counter + 1) := Function.update_self ..
  refine ⟨by change first ≤ demo.counter + 1; omega, fun i j n mine other => ?_,
    fun j n got => ?_, fun n => ?_, once⟩
  · dsimp only at mine other
    by_cases first : i = k
    · by_cases second : j = k
      · rw [first, second]
      · rw [first, here] at mine
        cases mine
        rw [others second] at other
        exact absurd other (fresh j)
    · rw [others first] at mine
      by_cases second : j = k
      · rw [second, here] at other
        cases other
        exact absurd mine (fresh i)
      · rw [others second] at other
        exact own i j n mine other
  · dsimp only at got ⊢
    by_cases first : j = k
    · rw [first, here] at got
      cases got
      omega
    · rw [others first] at got
      have upTo := issued j n got
      omega
  · refine (shown n).trans (exists_congr fun j => ?_)
    dsimp only
    by_cases first : j = k
    · subst first
      rw [here, connected]
      exact iff_of_false (by rintro ⟨⟩) (by rintro ⟨⟩)
    · rw [others first]

theorem number_ended {threads : Nat → Thread} {k : Nat} {n : Int}
    (increased : threads k = .increased n) (j : Nat) :
    (Function.update threads k (.ended n) j).number = (threads j).number := by
  by_cases here : j = k
  · subst here
    rw [Function.update_self, increased]
    rfl
  · rw [Function.update_of_ne here]

theorem Tickets.print {first : Int} {demo : Demo} {k : Nat} {n : Int} (tickets : Tickets first demo)
    (increased : demo.threads k = .increased n) :
    Tickets first { demo.setThread k (.ended n) with
      printed := demo.printed ++ [n], idle := demo.idle + 1 } := by
  obtain ⟨grown, own, issued, shown, once⟩ := tickets
  have numbers : ∀ j, ((demo.setThread k (.ended n)).threads j).number =
      (demo.threads j).number := number_ended increased
  have new : n ∉ demo.printed := by
    intro before
    obtain ⟨j, ended⟩ := (shown n).mp before
    have same := own j k n (ended ▸ rfl) (increased ▸ rfl)
    rw [same, increased] at ended
    cases ended
  refine ⟨grown, fun i j m mine other => ?_, fun j m got => ?_, fun m => ?_, ?_⟩
  · dsimp only at mine other
    rw [numbers] at mine other
    exact own i j m mine other
  · dsimp only at got
    rw [numbers] at got
    exact issued j m got
  · rw [List.mem_append, List.mem_singleton, shown m]
    constructor
    · rintro (⟨j, ended⟩ | rfl)
      · have other : j ≠ k := by
          rintro rfl
          rw [increased] at ended
          cases ended
        exact ⟨j, (Function.update_of_ne other ..).trans ended⟩
      · exact ⟨k, Function.update_self ..⟩
    · rintro ⟨j, ended⟩
      change Function.update demo.threads k _ j = _ at ended
      by_cases here : j = k
      · rw [here, Function.update_self] at ended
        cases ended
        exact Or.inr rfl
      · rw [Function.update_of_ne here] at ended
        exact Or.inl ⟨j, ended⟩
  · exact List.nodup_append.mpr ⟨once, List.nodup_singleton n, by
      intro m before last here same
      rw [List.mem_singleton.mp here] at same
      exact new (same ▸ before)⟩

theorem tickets_step {first : Int} {threads : Nat} {demo next : Demo} {event : Event}
    (tickets : Tickets first demo) (inOrder : InOrder threads demo)
    (steps : demo.step? threads event = some next) : Tickets first next := by
  cases stepped_of_step? steps with
  | @spawned i turn below =>
      have gone := inOrder.absent_next turn
      obtain ⟨numbers, ended⟩ := numbers_update gone rfl (rfl : Thread.started.number = none)
      exact tickets.keep numbers (Int.le_refl _) ended rfl
  | allSpawned turn all => exact tickets.keep (fun _ => rfl) (Int.le_refl _) (fun _ _ => Iff.rfl) rfl
  | joined turn below ended =>
      exact tickets.keep (fun _ => rfl) (Int.le_refl _) (fun _ _ => Iff.rfl) rfl
  | failed turn below panicked =>
      exact tickets.keep (fun _ => rfl) (Int.le_refl _) (fun _ _ => Iff.rfl) rfl
  | returned turn all => exact tickets.keep (fun _ => rfl) (Int.le_refl _) (fun _ _ => Iff.rfl) rfl
  | got started idle =>
      obtain ⟨numbers, ended⟩ := numbers_update started rfl (rfl : Thread.connected.number = none)
      exact tickets.keep numbers (Int.le_refl _) ended rfl
  | getFailed started =>
      obtain ⟨numbers, ended⟩ := numbers_update started rfl (rfl : Thread.panicked.number = none)
      exact tickets.keep numbers (Int.le_refl _) ended rfl
  | increased connected => exact tickets.increase connected
  | @incrFailed k executed connected counter counts =>
      obtain ⟨numbers, ended⟩ := numbers_update connected rfl (rfl : Thread.panicked.number = none)
      exact tickets.keep numbers (by change demo.counter ≤ counter; omega) ended rfl
  | printed increased => exact tickets.print increased
  | otherClient =>
      exact tickets.keep (fun _ => rfl) (by change demo.counter ≤ demo.counter + 1; omega)
        (fun _ _ => Iff.rfl) rfl

/-- The event does not count for a thread that got the number. -/
def Foreign : Event → Prop
  | .otherClient => True
  | .incrFails _ _ => True
  | _ => False

theorem gapless_step {first : Int} {threads : Nat} {demo next : Demo} {event : Event}
    (gapless : Gapless first demo) (inOrder : InOrder threads demo) (own : ¬ Foreign event)
    (steps : demo.step? threads event = some next) : Gapless first next := by
  have keep (numbers : ∀ k, (next.threads k).number = (demo.threads k).number)
      (counter : next.counter = demo.counter) : Gapless first next := by
    intro n above upTo
    obtain ⟨k, got⟩ := gapless n above (counter ▸ upTo)
    exact ⟨k, (numbers k).trans got⟩
  cases stepped_of_step? steps with
  | @spawned i turn below =>
      have gone := inOrder.absent_next turn
      exact keep (numbers_update gone rfl (rfl : Thread.started.number = none)).1 rfl
  | allSpawned turn all => exact keep (fun _ => rfl) rfl
  | joined turn below ended => exact keep (fun _ => rfl) rfl
  | failed turn below panicked => exact keep (fun _ => rfl) rfl
  | returned turn all => exact keep (fun _ => rfl) rfl
  | got started idle =>
      exact keep (numbers_update started rfl (rfl : Thread.connected.number = none)).1 rfl
  | getFailed started =>
      exact keep (numbers_update started rfl (rfl : Thread.panicked.number = none)).1 rfl
  | @increased k connected =>
      intro n above upTo
      change n ≤ demo.counter + 1 at upTo
      rcases Int.lt_or_eq_of_le upTo with earlier | rfl
      · obtain ⟨j, got⟩ := gapless n above (Int.lt_add_one_iff.mp earlier)
        have other : j ≠ k := by
          rintro rfl
          rw [connected] at got
          cases got
        refine ⟨j, Eq.trans ?_ got⟩
        exact congrArg Thread.number (Function.update_of_ne other ..)
      · refine ⟨k, ?_⟩
        change (Function.update demo.threads k _ k).number = _
        rw [Function.update_self]
        rfl
  | incrFailed connected counter counts => exact absurd trivial own
  | printed increased => exact keep (number_ended increased) rfl
  | otherClient => exact absurd trivial own

section Runs

variable {threads poolSize : Nat} {counter : Int} {history : List Event} {demo : Demo}

theorem tickets_of_run (run : (system threads poolSize counter).run? history = some demo) :
    Tickets counter demo := by
  refine (system threads poolSize counter).run?_induction
    (motive := fun _ demo => Tickets counter demo) ?_ ?_ run
  · refine ⟨Int.le_refl _, nofun, nofun, fun n => ?_, .nil⟩
    exact iff_of_false List.not_mem_nil (by rintro ⟨k, ⟨⟩⟩)
  · intro earlier middle event next reached tickets steps
    exact tickets_step tickets (inOrder_of_run reached) steps

theorem gapless_of_run (run : (system threads poolSize counter).run? history = some demo)
    (own : ∀ event ∈ history, ¬ Foreign event) : Gapless counter demo := by
  revert own
  refine (system threads poolSize counter).run?_induction
    (motive := fun history demo => (∀ event ∈ history, ¬ Foreign event) → Gapless counter demo) ?_ ?_ run
  · intro _ n above upTo
    exact absurd above (Int.not_lt.mpr upTo)
  · intro earlier middle event next reached ih steps own
    have before := ih fun other among => own other (List.mem_append_left _ among)
    have here := own event (List.mem_append_right _ (List.mem_singleton_self event))
    exact gapless_step before (inOrder_of_run reached) here steps

theorem panicked_step {next : Demo} {event : Event} {k : Nat} (inOrder : InOrder threads demo)
    (panicked : demo.threads k = .panicked) (steps : demo.step? threads event = some next) :
    next.threads k = .panicked := by
  have stays {j : Nat} {old : Thread} (stood : demo.threads j = old) (other : old ≠ .panicked)
      (thread : Thread) : Function.update demo.threads j thread k = .panicked := by
    have here : k ≠ j := by
      rintro rfl
      exact other (stood.symm.trans panicked)
    rw [Function.update_of_ne here, panicked]
  cases stepped_of_step? steps with
  | @spawned i turn below =>
      have gone := inOrder.absent_next turn
      exact stays gone (by rintro ⟨⟩) _
  | allSpawned turn all => exact panicked
  | joined turn below ended => exact panicked
  | failed turn below dead => exact panicked
  | returned turn all => exact panicked
  | got started idle => exact stays started (by rintro ⟨⟩) _
  | getFailed started => exact stays started (by rintro ⟨⟩) _
  | increased connected => exact stays connected (by rintro ⟨⟩) _
  | incrFailed connected counter counts => exact stays connected (by rintro ⟨⟩) _
  | printed increased => exact stays increased (by rintro ⟨⟩) _
  | otherClient => exact panicked

theorem panicked_of_run (run : (system threads poolSize counter).run? history = some demo) :
    ∀ k executed, .incrFails k executed ∈ history → demo.threads k = .panicked := by
  refine (system threads poolSize counter).run?_induction (motive := fun history demo =>
    ∀ k executed, .incrFails k executed ∈ history → demo.threads k = .panicked) nofun ?_ run
  intro earlier middle event next reached ih steps k executed among
  rcases List.mem_append.mp among with before | here
  · exact panicked_step (inOrder_of_run reached) (ih k executed before) steps
  · cases List.mem_singleton.mp here
    have fails : middle.step? threads (.incrFails k executed) = some next := steps
    cases stepped_of_step? fails with
    | incrFailed connected counter counts => exact Function.update_self ..

theorem ended_of_returned (run : (system threads poolSize counter).run? history = some demo)
    (returned : demo.main = .returned) {k : Nat} (present : demo.threads k ≠ .absent) :
    ∃ n, demo.threads k = .ended n := by
  have inOrder := inOrder_of_run run
  refine inOrder.joined k ?_
  rw [returned]
  refine Nat.lt_of_not_le fun beyond => present ((inOrder.absent k).mpr ?_)
  rw [returned]
  exact beyond

/--
The numbers.  In every order of what the threads, `main` and other clients do, no
two threads get the same number; what is printed are the numbers of the threads
that have ended, each once.  When `main` has returned, all threads have printed,
and unless another client counted too, they are the next numbers after the first
value without a gap.
-/
theorem counts_up (run : (system threads poolSize counter).run? history = some demo) :
    (∀ j k n, (demo.threads j).number = some n → (demo.threads k).number = some n → j = k) ∧
      demo.printed.Nodup ∧ (∀ n, n ∈ demo.printed ↔ ∃ k, demo.threads k = .ended n) ∧
      (∀ n ∈ demo.printed, counter < n ∧ n ≤ demo.counter) ∧
      (demo.main = .returned → demo.printed.length = threads ∧
        (.otherClient ∉ history → ∀ n, n ∈ demo.printed ↔ counter < n ∧ n ≤ counter + threads)) := by
  obtain ⟨grown, own, issued, shown, once⟩ := tickets_of_run run
  refine ⟨own, once, shown, fun n among => ?_, fun returned => ?_⟩
  · obtain ⟨k, ended⟩ := (shown n).mp among
    exact issued k n (ended ▸ rfl)
  · have all : ∀ k ∈ Finset.range threads, Demo.shown (demo.threads k) = 1 := by
      intro k among
      have below := Finset.mem_range.mp among
      obtain ⟨n, ended⟩ := (inOrder_of_run run).joined k (by rw [returned]; exact below)
      rw [ended]
      rfl
    have length : demo.printed.length = threads := by
      rw [(accounts_of_run run).printed, total, Finset.sum_const_nat all, Finset.card_range,
        Nat.mul_one]
    refine ⟨length, fun alone => ?_⟩
    have foreign : ∀ event ∈ history, ¬ Foreign event := by
      intro event among
      cases event with
      | otherClient => exact fun _ => alone among
      | incrFails k executed =>
          intro _
          have dead := panicked_of_run run k executed among
          obtain ⟨n, ended⟩ := ended_of_returned run returned (by rw [dead]; rintro ⟨⟩)
          rw [dead] at ended
          cases ended
      | _ => exact id
    have numbers : ∀ n, n ∈ demo.printed ↔ counter < n ∧ n ≤ demo.counter := by
      intro n
      rw [shown n]
      constructor
      · rintro ⟨k, ended⟩
        exact issued k n (ended ▸ rfl)
      · rintro ⟨above, upTo⟩
        obtain ⟨k, got⟩ := gapless_of_run run foreign n above upTo
        have present : demo.threads k ≠ .absent := by
          intro gone
          rw [gone] at got
          cases got
        obtain ⟨m, ended⟩ := ended_of_returned run returned present
        rw [ended] at got
        cases got
        exact ⟨k, ended⟩
    have count : (demo.counter - counter).toNat = threads := by
      have same : demo.printed.toFinset = Finset.Ioc counter demo.counter := by
        ext n
        rw [List.mem_toFinset, Finset.mem_Ioc, numbers n]
      rw [← Int.card_Ioc, ← same, List.toFinset_card_of_nodup once, length]
    have last : demo.counter = counter + threads := by omega
    exact last ▸ numbers

end Runs

theorem counts_up_two_threads :
    ∃ demo, (system 2 1 7).run? twoThreads = some demo ∧ demo.main = .returned ∧
      demo.printed.Nodup ∧ ∀ n, n ∈ demo.printed ↔ 7 < n ∧ n ≤ 7 + 2 := by
  have numbers := @counts_up 2 1 7 twoThreads _ rfl
  exact ⟨_, rfl, rfl, numbers.2.1, (numbers.2.2.2.2 rfl).2 (by decide)⟩

end Demo

end RustDemo.RedisDemo
