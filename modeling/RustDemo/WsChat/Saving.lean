import RustDemo.WsChat.LogFile
import RustDemo.WsChat.Nicks

/-!
# Saving

SAVE opens the file for writing and does not truncate it: the text of the log
takes the place of the first bytes, and what is behind them stays.  `main` reads
the file to its end and starts with an empty log when that is an error.
-/

namespace RustDemo.WsChat

open RustDemo.Text RustDemo.Transition

/-- A write from the beginning of a file that is not truncated. -/
def overwrite (file text : List UInt8) : List UInt8 := text ++ file.drop text.length

/--
The file and the running server.  The ghost field `saved` is the log of the last
SAVE.
-/
structure Server (κ : Type) where
  file : List UInt8
  chat : Chat κ
  saved : Option (List LogMessage)

inductive ServerEvent (κ : Type) where
  | chat (event : Event κ)
  | save (k : κ)
  | restart

namespace Server

variable {κ : Type} [DecidableEq κ] (crates : Crates) (serde : SerdeFile)

/-- What `main` makes of the file. -/
def load (file : List UInt8) : List LogMessage := (serde.fromReader file).getD []

def start (file : List UInt8) : Server κ := ⟨file, Chat.new (load serde file), none⟩

/-- `on_timeout` for `SAVE`, when it completes. -/
def onSave (server : Server κ) : Server κ :=
  let log := server.chat.shared.messageLog
  { server with file := overwrite server.file (serde.toWriterPretty log), saved := some log }

def step? (server : Server κ) : ServerEvent κ → Option (Server κ)
  | .chat event => (server.chat.step? crates event).map fun chat => { server with chat := chat }
  | .save k =>
      match server.chat.connections k with
      | .opened _ => some (server.onSave serde)
      | _ => none
  | .restart => some { server with chat := Chat.new (load serde server.file) }

/-- Any initial file, and every order of chat events, completed SAVEs and restarts. -/
def system (file : List UInt8) : System (Server κ) (ServerEvent κ) := ⟨start serde file, step? crates serde⟩

end Server

theorem Chat.log_grows {κ : Type} [DecidableEq κ] {crates : Crates} {chat next : Chat κ}
    {event : Event κ} (stepped : chat.step? crates event = some next) :
    chat.shared.messageLog <+: next.shared.messageLog := by
  cases stepped_of_step? stepped with
  | opened absent outputs => exact List.prefix_rfl
  | responded live responds =>
      cases responds with
      | posted reads => exact List.prefix_append _ _
      | answered unread refused text => exact List.prefix_rfl
      | joined reads free entry output => exact List.prefix_append _ _
  | closed holds entry outputs => exact List.prefix_append _ _
  | left live => exact List.prefix_rfl

namespace Server

variable {κ : Type} [DecidableEq κ] {crates : Crates} {serde : SerdeFile}

variable (serde) in
/-- What was saved last is what the server would load. -/
def LoadsBack (server : Server κ) : Prop :=
  ∀ log, server.saved = some log → serde.fromReader server.file = some log

variable (serde) in
/-- The first SAVE finds only blanks in the file behind the length of its text. -/
def FirstSaveFits (server : Server κ) : ServerEvent κ → Prop
  | .save _ => server.saved = none →
      Blank (server.file.drop (serde.toWriterPretty server.chat.shared.messageLog).length)
  | _ => True

variable (serde) in
/--
The file begins with the text of the last SAVE.  While that loads back, the
log goes on from there, over restarts too.
-/
def Written (server : Server κ) : Prop :=
  ∀ log, server.saved = some log → ∃ rest, server.file = serde.toWriterPretty log ++ rest ∧
    (Blank rest → log <+: server.chat.shared.messageLog)

theorem Written.step (lawful : serde.Lawful) {server next : Server κ} {event : ServerEvent κ}
    (written : server.Written serde) (stepped : server.step? crates serde event = some next) :
    next.Written serde := by
  cases event with
  | chat event =>
      obtain ⟨chat, chatStepped, rfl⟩ := Option.map_eq_some_iff.mp stepped
      intro log saved
      obtain ⟨rest, begins, goesOn⟩ := written log saved
      exact ⟨rest, begins, fun blank => (goesOn blank).trans (Chat.log_grows chatStepped)⟩
  | save k =>
      rw [step?] at stepped
      split at stepped <;> cases stepped
      rintro log ⟨⟩
      exact ⟨_, rfl, fun _ => List.prefix_rfl⟩
  | restart =>
      cases stepped
      intro log saved
      obtain ⟨rest, begins, _⟩ := written log saved
      refine ⟨rest, begins, fun blank => ?_⟩
      have loaded : load serde server.file = log := by
        rw [load, begins, lawful.reads_back log rest blank]
        rfl
      show log <+: load serde server.file
      exact loaded.symm ▸ List.prefix_rfl

omit [DecidableEq κ] in
/-- A SAVE is loaded back exactly if it leaves nothing but blanks behind its text. -/
theorem loadsBack_onSave_iff (lawful : serde.Lawful) (server : Server κ) :
    (server.onSave serde).LoadsBack serde ↔
      Blank (server.file.drop (serde.toWriterPretty server.chat.shared.messageLog).length) := by
  rw [← lawful.fromReader_iff server.chat.shared.messageLog]
  constructor
  · intro loads
    exact loads _ rfl
  · rintro reads _ ⟨⟩
    exact reads

theorem loadsBack_step_iff (lawful : serde.Lawful) {server next : Server κ} {event : ServerEvent κ}
    (written : server.Written serde) (loads : server.LoadsBack serde)
    (stepped : server.step? crates serde event = some next) :
    next.LoadsBack serde ↔ FirstSaveFits serde server event := by
  cases event with
  | chat event =>
      obtain ⟨chat, _, rfl⟩ := Option.map_eq_some_iff.mp stepped
      exact iff_of_true loads trivial
  | save k =>
      rw [step?] at stepped
      split at stepped <;> cases stepped
      rw [loadsBack_onSave_iff lawful]
      constructor
      · exact fun blank _ => blank
      · intro fits
        cases saved : server.saved with
        | none => exact fits saved
        | some log =>
            obtain ⟨rest, begins, goesOn⟩ := written log saved
            have blank : Blank rest := by
              rw [← lawful.fromReader_iff log, ← begins]
              exact loads log saved
            rw [begins]
            exact lawful.blank_drop (goesOn blank) blank
  | restart =>
      cases stepped
      exact iff_of_true loads trivial

/-- A file that the server loads to go on from: one without a log, or one that it wrote. -/
inductive Clean (serde : SerdeFile) : List UInt8 → Prop where
  | blank {file : List UInt8} (blank : Blank file) : Clean serde file
  | saved (log : List LogMessage) {rest : List UInt8} (blank : Blank rest) :
      Clean serde (serde.toWriterPretty log ++ rest)

theorem firstSaveFits_of_clean (lawful : serde.Lawful) {file : List UInt8} (clean : Clean serde file)
    {history : List (ServerEvent κ)} {server : Server κ}
    (run : (system crates serde file).run? history = some server) :
    (system crates serde file).Meets (FirstSaveFits serde) history := by
  refine (system crates serde file).meets_of_invariant (fun server : Server κ => server.saved = none →
    server.file = file ∧ load serde file <+: server.chat.shared.messageLog) ?_ ?_ ?_ run
  · exact fun _ => ⟨rfl, List.prefix_rfl⟩
  · intro server event next unsaved stepped
    cases event with
    | chat event =>
        obtain ⟨chat, chatStepped, rfl⟩ := Option.map_eq_some_iff.mp stepped
        intro never
        obtain ⟨same, goesOn⟩ := unsaved never
        exact ⟨same, goesOn.trans (Chat.log_grows chatStepped)⟩
    | save k =>
        simp only [system, step?] at stepped
        split at stepped <;> cases stepped
        exact nofun
    | restart =>
        cases stepped
        intro never
        obtain ⟨same, _⟩ := unsaved never
        refine ⟨same, ?_⟩
        show load serde file <+: load serde server.file
        exact same.symm ▸ List.prefix_rfl
  · intro server event next unsaved stepped
    cases event with
    | save k =>
        intro never
        obtain ⟨same, goesOn⟩ := unsaved never
        rw [same]
        cases clean with
        | blank blank => exact blank.drop _
        | saved log blank =>
            rw [load, lawful.reads_back log _ blank] at goesOn
            exact lawful.blank_drop goesOn blank
    | _ => trivial

/--
In every run, from every initial file, each SAVE is loaded back as it was saved
exactly if the first one leaves nothing but blanks of the initial file.
-/
theorem loadsBack_iff_firstSaveFits (lawful : serde.Lawful) (file : List UInt8)
    {history : List (ServerEvent κ)} {server : Server κ}
    (run : (system crates serde file).run? history = some server) :
    (system crates serde file).Always (LoadsBack serde) history ↔
      (system crates serde file).Meets (FirstSaveFits serde) history := by
  refine (system crates serde file).always_iff_meets (Written serde) nofun nofun ?_ ?_ run
  · intro server event next written stepped
    exact written.step lawful stepped
  · intro server event next written loads stepped
    exact loadsBack_step_iff lawful written loads stepped

/-- A new file, and a log that grows. -/
theorem loadsBack_iff_firstSaveFits_new_file :
    (system Chat.joinCrates LogText.serde []).Always (LoadsBack LogText.serde)
      [.chat (.onOpen 0 0), .save 0, .chat (.onMessage 0 (.text Chat.annJoins) 0), .save 0, .restart] :=
  (loadsBack_iff_firstSaveFits LogText.lawful [] rfl).mpr
    (firstSaveFits_of_clean LogText.lawful (.blank (List.forall_mem_nil _)) rfl)

/-- The text of an empty log over the beginning of a file that is no log. -/
theorem save_not_loaded_back :
    ¬ ∀ (file : List UInt8) (history : List (ServerEvent Nat)) (server : Server Nat),
      (system Chat.joinCrates LogText.serde file).run? history = some server →
        server.LoadsBack LogText.serde := by
  intro loads
  have read := loads (utf8 "no log") [.chat (.onOpen 0 0), .save 0] _ rfl [] rfl
  revert read
  decide

/-! ## Restarts -/

def recordSave (server : Server κ) (event : ServerEvent κ) (saves : List (List LogMessage)) :
    List (List LogMessage) :=
  match event with
  | .save _ => saves ++ [server.chat.shared.messageLog]
  | _ => saves

variable (crates serde) in
def recorded (file : List UInt8) : System (Server κ × List (List LogMessage)) (ServerEvent κ) :=
  (system crates serde file).recording [] recordSave

variable (serde) in
/--
The saved logs extend one another, the running log extends them all, and what the
file gives is the last of them, or what it gave at first.
-/
structure Kept (file : List UInt8) (server : Server κ) (saves : List (List LogMessage)) : Prop where
  chain : saves.Pairwise (· <+: ·)
  running : ∀ log ∈ saves, log <+: server.chat.shared.messageLog
  loaded : load serde server.file = saves.getLast?.getD (load serde file)

theorem prefix_getLast {saves : List (List LogMessage)} (chain : saves.Pairwise (· <+: ·))
    {log : List LogMessage} (among : log ∈ saves) (other : List LogMessage) :
    log <+: saves.getLast?.getD other := by
  obtain ⟨last, found⟩ := List.getLast?_isSome.mpr (List.ne_nil_of_mem among) |> Option.isSome_iff_exists.mp
  obtain ⟨earlier, rfl⟩ := List.getLast?_eq_some_iff.mp found
  rw [found]
  rcases List.mem_append.mp among with before | here
  · exact (List.pairwise_append.mp chain).2.2 log before last (List.mem_singleton_self _)
  · cases List.mem_singleton.mp here
    exact List.prefix_rfl

theorem Kept.step {file : List UInt8} {server next : Server κ}
    {saves : List (List LogMessage)} {event : ServerEvent κ} (kept : Kept serde file server saves)
    (loads : next.LoadsBack serde) (stepped : server.step? crates serde event = some next) :
    Kept serde file next (recordSave server event saves) := by
  obtain ⟨chain, running, loaded⟩ := kept
  cases event with
  | chat event =>
      obtain ⟨chat, chatStepped, rfl⟩ := Option.map_eq_some_iff.mp stepped
      exact ⟨chain, fun log among => (running log among).trans (Chat.log_grows chatStepped), loaded⟩
  | save k =>
      rw [step?] at stepped
      split at stepped <;> cases stepped
      have read := loads _ rfl
      refine ⟨?_, ?_, ?_⟩
      · rw [recordSave, List.pairwise_append]
        refine ⟨chain, List.pairwise_singleton _ _, fun log among last here => ?_⟩
        cases List.mem_singleton.mp here
        exact running log among
      · intro log among
        rcases List.mem_append.mp among with before | here
        · exact running log before
        · cases List.mem_singleton.mp here
          exact List.prefix_rfl
      · rw [recordSave, List.getLast?_concat, load, read]
        rfl
  | restart =>
      cases stepped
      refine ⟨chain, fun log among => ?_, loaded⟩
      change log <+: load serde server.file
      rw [loaded]
      exact prefix_getLast chain among _

theorem kept_of_run (lawful : serde.Lawful) {file : List UInt8} {history : List (ServerEvent κ)}
    {state : Server κ × List (List LogMessage)}
    (run : (recorded crates serde file).run? history = some state)
    (fits : (system crates serde file).Meets (FirstSaveFits serde) history) :
    Kept serde file state.1 state.2 := by
  suffices all : state.1.Written serde ∧ state.1.LoadsBack serde ∧ Kept serde file state.1 state.2
    from all.2.2
  revert fits
  refine (recorded crates serde file).run?_induction (motive := fun history state =>
    (system crates serde file).Meets (FirstSaveFits serde) history →
      state.1.Written serde ∧ state.1.LoadsBack serde ∧ Kept serde file state.1 state.2) ?_ ?_ run
  · intro _
    exact ⟨nofun, nofun, .nil, nofun, rfl⟩
  · intro earlier middle event next reached ih stepped fits
    obtain ⟨before, here⟩ := ((system crates serde file).meets_snoc earlier event).mp fits
    obtain ⟨written, loads, kept⟩ := ih before
    obtain ⟨server, moved, rfl⟩ := Option.map_eq_some_iff.mp stepped
    have reaches := System.run?_of_recording _ reached
    have loadsNext := (loadsBack_step_iff lawful written loads moved).mpr (here _ reaches)
    exact ⟨written.step lawful moved, loadsNext, kept.step loadsNext moved⟩

/--
Restarts.  Where the first SAVE leaves nothing but blanks of the initial file, in
every order of chat events, SAVEs and restarts: a log that was once saved is from
then on a part of the running log and of what the file gives, whatever happens,
and what a restart gives is the log of the last SAVE, or the initial one.
-/
theorem saved_is_kept (lawful : serde.Lawful) {file : List UInt8} {history : List (ServerEvent κ)}
    {server : Server κ} {saves : List (List LogMessage)}
    (run : (recorded crates serde file).run? history = some (server, saves))
    (fits : (system crates serde file).Meets (FirstSaveFits serde) history) :
    saves.Pairwise (· <+: ·) ∧
      (∀ log ∈ saves, log <+: server.chat.shared.messageLog ∧ log <+: load serde server.file) ∧
      load serde server.file = saves.getLast?.getD (load serde file) := by
  obtain ⟨chain, running, loaded⟩ := kept_of_run lawful run fits
  refine ⟨chain, fun log among => ⟨running log among, ?_⟩, loaded⟩
  rw [loaded]
  exact prefix_getLast chain among _

/-- One post is saved, another one is not, and then the server restarts. -/
def restarts : List (ServerEvent Nat) :=
  [.chat (.onOpen 0 0), .chat (.onMessage 0 (.text Chat.annJoins) 0), .save 0,
    .chat (.onClose 0 0), .restart]

theorem saved_is_kept_restarts :
    ∃ state, (recorded Chat.joinCrates LogText.serde []).run? restarts = some state ∧
      load LogText.serde state.1.file = [⟨"system", some 0, "ann has joined the chat."⟩] ∧
      ∀ log ∈ state.2, log <+: state.1.chat.shared.messageLog := by
  have kept := @saved_is_kept Nat _ Chat.joinCrates LogText.serde LogText.lawful [] restarts _ _ rfl
    (firstSaveFits_of_clean LogText.lawful (.blank (List.forall_mem_nil _)) rfl)
  exact ⟨_, rfl, kept.2.2, fun log among => (kept.2.1 log among).1⟩

end Server

end RustDemo.WsChat
