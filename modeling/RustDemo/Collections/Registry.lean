import RustDemo.Collections.HashMap
import RustDemo.Transition.System

/-!
# Registries

Connections enter a shared map under their address, where an entry replaces an
older one, and what is taken out is whatever stands under the address.  So the
connection that registered last has its entry just as long as nobody else who
leaves takes it out.  What one connection says is sent to the entries under all
other addresses.
-/

namespace RustDemo.Collections

open RustDemo.Transition

/-- What an event does to the shared map. -/
inductive Change (κ : Type) where
  | keep
  | register (k : κ)
  | unregister (k : κ)

/-- The change leads from one map and the connections that are live to the next. -/
inductive Change.Applies {κ σ : Type} [DecidableEq σ] (addr : κ → σ) (map after : HashMap σ κ)
    (live lives : κ → Prop) : Change κ → Prop where
  | keep (lookup : ∀ address, after.lookup address = map.lookup address)
      (same : ∀ j, lives j ↔ live j) : Applies addr map after live lives .keep
  | register {k : κ} (fresh : ¬ live k)
      (lookup : ∀ address,
        after.lookup address = if address = addr k then some k else map.lookup address)
      (same : ∀ j, lives j ↔ j = k ∨ live j) : Applies addr map after live lives (.register k)
  | unregister {k : κ} (known : live k)
      (lookup : ∀ address,
        after.lookup address = if address = addr k then none else map.lookup address)
      (same : ∀ j, lives j ↔ j ≠ k ∧ live j) : Applies addr map after live lives (.unregister k)

/-- A system with a shared map, and what each of its events does to it. -/
structure Registry {S E : Type} (system : System S E) (κ σ : Type) [DecidableEq σ] where
  addr : κ → σ
  map : S → HashMap σ κ
  Live : S → κ → Prop
  change : S → E → Change κ
  map_init : ∀ address, (map system.init).lookup address = none
  live_init : ∀ k, ¬ Live system.init k
  step : ∀ state event next, system.step? state event = some next →
    (change state event).Applies addr (map state) (map next) (Live state) (Live next)

namespace Registry

variable {S E κ σ : Type} [DecidableEq σ] {system : System S E} (registry : Registry system κ σ)

def Owned (state : S) : Prop :=
  ∀ address k, (registry.map state).lookup address = some k →
    registry.addr k = address ∧ registry.Live state k

def recorded : System (S × (σ → Option κ)) E :=
  system.recording (fun _ => none) fun state event last =>
    match registry.change state event with
    | .register k => Function.update last (registry.addr k) (some k)
    | _ => last

/-- Every live connection that registered last under its address has its own entry there. -/
def Held (state : S × (σ → Option κ)) : Prop :=
  ∀ k, registry.Live state.1 k → state.2 (registry.addr k) = some k →
    (registry.map state.1).lookup (registry.addr k) = some k

/-- Nobody leaves while the entry of another connection stands under its address. -/
def RemovesOwn (state : S × (σ → Option κ)) (event : E) : Prop :=
  ∀ k, registry.change state.1 event = .unregister k →
    ∀ j, (registry.map state.1).lookup (registry.addr k) = some j → j = k

/-- What stands in the map registered last. -/
def Latest (state : S × (σ → Option κ)) : Prop :=
  ∀ address k, (registry.map state.1).lookup address = some k → state.2 address = some k

variable {registry}

theorem owned_init : registry.Owned system.init := by
  intro address k listed
  rw [registry.map_init] at listed
  cases listed

theorem Owned.step {state next : S} {event : E} (owned : registry.Owned state)
    (stepped : system.step? state event = some next) : registry.Owned next := by
  intro address k listed
  have applies := registry.step state event next stepped
  generalize registry.change state event = change at applies
  cases applies with
  | keep lookup same =>
      rw [lookup] at listed
      rw [same]
      exact owned address k listed
  | register fresh lookup same =>
      rw [lookup] at listed
      rw [same]
      split at listed
      · rename_i here
        cases listed
        exact ⟨here.symm, Or.inl rfl⟩
      · obtain ⟨there, live⟩ := owned address k listed
        exact ⟨there, Or.inr live⟩
  | unregister known lookup same =>
      rw [lookup] at listed
      rw [same]
      split at listed
      · cases listed
      · rename_i elsewhere
        obtain ⟨there, live⟩ := owned address k listed
        refine ⟨there, ?_, live⟩
        rintro rfl
        exact elsewhere there.symm

/-- An entry is under the address of its connection, so no connection has two. -/
theorem Owned.values_nodup {state : S} (owned : registry.Owned state) :
    ((registry.map state).entries.map Sigma.snd).Nodup :=
  HashMap.values_nodup registry.addr _ fun address k listed => (owned address k listed).1

theorem owned_of_run {history : List E} {state : S} (run : system.run? history = some state) :
    registry.Owned state :=
  system.invariant registry.Owned owned_init (fun _ _ _ owned stepped => owned.step stepped) run

theorem Latest.step {state next : S × (σ → Option κ)} {event : E} (latest : registry.Latest state)
    (stepped : registry.recorded.step? state event = some next) : registry.Latest next := by
  obtain ⟨after, moved, rfl⟩ := Option.map_eq_some_iff.mp stepped
  intro address k listed
  have applies := registry.step state.1 event after moved
  dsimp only at listed ⊢
  generalize registry.change state.1 event = change at applies
  cases applies with
  | keep lookup same =>
      rw [lookup] at listed
      exact latest address k listed
  | register fresh lookup same =>
      rw [lookup] at listed
      dsimp only
      split at listed
      · rename_i here
        cases listed
        rw [here, Function.update_self]
      · rename_i elsewhere
        rw [Function.update_of_ne elsewhere]
        exact latest address k listed
  | unregister known lookup same =>
      rw [lookup] at listed
      split at listed
      · cases listed
      · exact latest address k listed

/-- One step keeps the entries exactly if it does not remove that of another connection. -/
theorem Held.step {state next : S × (σ → Option κ)} {event : E} (owned : registry.Owned state.1)
    (latest : registry.Latest state) (held : registry.Held state)
    (stepped : registry.recorded.step? state event = some next) :
    registry.Held next ↔ registry.RemovesOwn state event := by
  obtain ⟨after, moved, rfl⟩ := Option.map_eq_some_iff.mp stepped
  have applies := registry.step state.1 event after moved
  unfold Held RemovesOwn
  dsimp only
  generalize registry.change state.1 event = change at applies
  cases applies with
  | keep lookup same =>
      refine ⟨fun _ => nofun, fun _ k live last => ?_⟩
      rw [lookup]
      exact held k ((same k).mp live) last
  | @register k fresh lookup same =>
      refine ⟨fun _ => nofun, fun _ j live last => ?_⟩
      dsimp only at last
      rw [lookup]
      split
      · rename_i here
        rw [here, Function.update_self] at last
        exact last
      · rename_i elsewhere
        rw [Function.update_of_ne elsewhere] at last
        rcases (same j).mp live with rfl | before
        · exact absurd rfl elsewhere
        · exact held j before last
  | @unregister k known lookup same =>
      constructor
      · rintro kept _ ⟨⟩ j listed
        by_contra other
        obtain ⟨there, live⟩ := owned _ j listed
        have last := latest _ j listed
        rw [← there] at last
        have still := kept j ((same j).mpr ⟨other, live⟩) last
        rw [lookup, if_pos there] at still
        cases still
      · intro own j live last
        obtain ⟨other, before⟩ := (same j).mp live
        have listed := held j before last
        rw [lookup]
        split
        · rename_i shared
          rw [shared] at listed
          exact absurd (own k rfl j listed) other
        · exact listed

theorem owned_of_recorded {history : List E} {state : S × (σ → Option κ)}
    (run : registry.recorded.run? history = some state) : registry.Owned state.1 :=
  owned_of_run (system.run?_of_recording run)

/--
In a run the live connection that registered last under an address has its own
entry there at all times exactly if nobody leaves while the entry of another one
stands under its address.
-/
theorem held_iff {history : List E} {state : S × (σ → Option κ)}
    (run : registry.recorded.run? history = some state) :
    registry.recorded.Always registry.Held history ↔
      registry.recorded.Meets registry.RemovesOwn history := by
  refine registry.recorded.always_iff_meets
    (fun state => registry.Owned state.1 ∧ registry.Latest state)
    (fun k live => absurd live (registry.live_init k)) ⟨owned_init, ?_⟩ ?_ ?_ run
  · intro address k listed
    have empty := registry.map_init address
    cases empty.symm.trans listed
  · rintro state event next ⟨owned, latest⟩ stepped
    refine ⟨?_, latest.step stepped⟩
    obtain ⟨after, moved, rfl⟩ := Option.map_eq_some_iff.mp stepped
    exact owned.step moved
  · rintro state event next ⟨owned, latest⟩ held stepped
    exact held.step owned latest stepped

theorem held_with_iff {serves : S → κ → Prop}
    (served : ∀ state k, registry.Owned state →
      (registry.map state).lookup (registry.addr k) = some k → serves state k)
    {history : List E} {state : S} (run : system.run? history = some state) :
    registry.recorded.Always (fun state => ∀ k, registry.Live state.1 k →
        state.2 (registry.addr k) = some k →
          (registry.map state.1).lookup (registry.addr k) = some k ∧ serves state.1 k) history ↔
      registry.recorded.Meets registry.RemovesOwn history := by
  obtain ⟨last, recorded⟩ := system.exists_recording run
  rw [← held_iff recorded]
  apply System.always_congr
  intro earlier reached reaches
  have owned := owned_of_recorded reaches
  constructor
  · intro registered k live last
    exact (registered k live last).1
  · intro held k live last
    have listed := held k live last
    exact ⟨listed, served reached.1 k owned listed⟩

variable (registry)

def Distinct (state : S) : Prop :=
  ∀ j k, registry.Live state j → registry.Live state k → registry.addr j = registry.addr k → j = k

def Listed (state : S) : Prop :=
  ∀ k, registry.Live state k → (registry.map state).lookup (registry.addr k) = some k

variable {registry}

theorem Listed.step {state next : S} {event : E} (listed : registry.Listed state)
    (before : registry.Distinct state) (after : registry.Distinct next)
    (stepped : system.step? state event = some next) : registry.Listed next := by
  intro j live
  have applies := registry.step state event next stepped
  generalize registry.change state event = change at applies
  cases applies with
  | keep lookup same =>
      rw [lookup]
      exact listed j ((same j).mp live)
  | @register k fresh lookup same =>
      rw [lookup]
      split
      · rename_i here
        rw [after j k live ((same k).mpr (Or.inl rfl)) here]
      · rename_i elsewhere
        rcases (same j).mp live with rfl | already
        · exact absurd rfl elsewhere
        · exact listed j already
  | @unregister k known lookup same =>
      obtain ⟨other, already⟩ := (same j).mp live
      rw [lookup]
      split
      · rename_i here
        exact absurd (before j k already known here) other
      · exact listed j already

theorem listed_of_run {history : List E} {state : S} (run : system.run? history = some state)
    (distinct : system.Always registry.Distinct history) : registry.Listed state := by
  have both : registry.Listed state ∧ registry.Distinct state := by
    refine system.invariant_of_always registry.Distinct
      (fun state => registry.Listed state ∧ registry.Distinct state) ⟨?_, ?_⟩ ?_ run distinct
    · intro k live
      exact absurd live (registry.live_init k)
    · intro j k live
      exact absurd live (registry.live_init j)
    · rintro state event next ⟨listed, before⟩ after stepped
      exact ⟨listed.step before after stepped, after⟩
  exact both.1

end Registry

/-! ## Sending to the entries -/

/-- The connections that stand in the entries under other addresses. -/
def others {κ σ : Type} [DecidableEq σ] (own : σ) (entries : List (Sigma fun _ : σ => κ)) : List κ :=
  (entries.filter fun entry => entry.1 ≠ own).map Sigma.snd

section Others

variable {κ σ : Type} [DecidableEq σ] {own : σ}

theorem others_cons (own other : σ) (k : κ) (entries : List (Sigma fun _ : σ => κ)) :
    others own (⟨other, k⟩ :: entries) =
      if other ≠ own then k :: others own entries else others own entries := by
  unfold others
  rw [List.filter_cons]
  by_cases foreign : other ≠ own
  · rw [if_pos (decide_eq_true foreign), if_pos foreign, List.map_cons]
  · rw [if_neg (by simpa using foreign), if_neg foreign]

theorem mem_others {entries : List (Sigma fun _ : σ => κ)} {k : κ} :
    k ∈ others own entries ↔ ∃ address, address ≠ own ∧ ⟨address, k⟩ ∈ entries := by
  simp only [others, List.mem_map, List.mem_filter, decide_eq_true_eq]
  constructor
  · rintro ⟨⟨address, _⟩, ⟨listed, foreign⟩, rfl⟩
    exact ⟨address, foreign, listed⟩
  · rintro ⟨address, foreign, listed⟩
    exact ⟨⟨address, k⟩, ⟨listed, foreign⟩, rfl⟩

theorem others_nodup {entries : List (Sigma fun _ : σ => κ)}
    (distinct : (entries.map Sigma.snd).Nodup) : (others own entries).Nodup :=
  distinct.sublist (List.Sublist.map _ List.filter_sublist)

end Others

section SendAll

variable {κ τ : Type} [DecidableEq κ]

/-- Send to each receiver in turn; there is no result when one of them cannot take it. -/
def sendAll (send : τ → Option τ) : List κ → (κ → τ) → Option (κ → τ)
  | [], tasks => some tasks
  | k :: receivers, tasks =>
      (send (tasks k)).bind fun task => sendAll send receivers (Function.update tasks k task)

variable {send : τ → Option τ} {receivers : List κ} {tasks after : κ → τ}

theorem sendAll_of_notMem (sent : sendAll send receivers tasks = some after) {k : κ}
    (unlisted : k ∉ receivers) : after k = tasks k := by
  induction receivers generalizing tasks with
  | nil =>
      cases sent
      rfl
  | cons first receivers ih =>
      obtain ⟨other, later⟩ := List.ne_and_not_mem_of_not_mem_cons unlisted
      obtain ⟨task, _, rest⟩ := Option.bind_eq_some_iff.mp sent
      exact (ih rest later).trans (Function.update_of_ne other ..)

theorem sendAll_of_mem (distinct : receivers.Nodup)
    (sent : sendAll send receivers tasks = some after) {k : κ} (listed : k ∈ receivers) :
    send (tasks k) = some (after k) := by
  induction receivers generalizing tasks with
  | nil => cases listed
  | cons first receivers ih =>
      obtain ⟨once, later⟩ := List.nodup_cons.mp distinct
      obtain ⟨task, took, rest⟩ := Option.bind_eq_some_iff.mp sent
      by_cases here : k = first
      · subst here
        have updated := sendAll_of_notMem rest once
        rw [Function.update_self] at updated
        rw [updated]
        exact took
      · have deeper := ih later rest ((List.mem_cons.mp listed).resolve_left here)
        rwa [Function.update_of_ne here] at deeper

theorem sendAll_keeps {P : τ → Prop} (keeps : ∀ task next, send task = some next → P task → P next)
    (sent : sendAll send receivers tasks = some after) (k : κ) (holds : P (tasks k)) : P (after k) := by
  induction receivers generalizing tasks with
  | nil =>
      cases sent
      exact holds
  | cons first receivers ih =>
      obtain ⟨task, took, rest⟩ := Option.bind_eq_some_iff.mp sent
      apply ih rest
      by_cases here : k = first
      · subst here
        rw [Function.update_self]
        exact keeps _ _ took holds
      · rw [Function.update_of_ne here]
        exact holds

theorem sendAll_preserves {P : τ → Prop}
    (preserves : ∀ task next, send task = some next → (P next ↔ P task))
    (sent : sendAll send receivers tasks = some after) (k : κ) : P (after k) ↔ P (tasks k) := by
  constructor
  · intro holds
    by_contra before
    exact sendAll_keeps (P := fun task => ¬ P task)
      (fun task next took fails => mt (preserves task next took).mp fails) sent k before holds
  · exact sendAll_keeps (fun task next took => (preserves task next took).mpr) sent k

/-- Where every receiver can take it, and still can after it took it, the loop ends. -/
theorem exists_sendAll {P : τ → Prop}
    (accepts : ∀ task, P task → ∃ next, send task = some next ∧ P next)
    (all : ∀ k ∈ receivers, P (tasks k)) : ∃ after, sendAll send receivers tasks = some after := by
  induction receivers generalizing tasks with
  | nil => exact ⟨tasks, rfl⟩
  | cons first receivers ih =>
      obtain ⟨task, took, still⟩ := accepts (tasks first) (all first List.mem_cons_self)
      have rest : ∀ k ∈ receivers, P (Function.update tasks first task k) := by
        intro k listed
        by_cases here : k = first
        · subst here
          rw [Function.update_self]
          exact still
        · rw [Function.update_of_ne here]
          exact all k (List.mem_cons_of_mem _ listed)
      obtain ⟨after, sent⟩ := ih rest
      exact ⟨after, by rw [sendAll, took]; exact sent⟩

end SendAll

end RustDemo.Collections
