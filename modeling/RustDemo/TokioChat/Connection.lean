import RustDemo.ChatNew.Lines
import RustDemo.Collections.HashMap
import RustDemo.Text.JsonString
import RustDemo.Transition.System

/-!
# The connections of `tokio_chat`

One task serves an accepted connection: a reader that sends each line to the
others, and a writer that drains the channel of the connection.  As soon as one
of the two is done both are dropped, and the entry under the address is removed.
A step is one round of the reader or of the writer.
-/

namespace RustDemo.TokioChat

open RustDemo.ChatNew RustDemo.Collections RustDemo.Text RustDemo.Transition

/--
The two halves of a connection: the reads to come, what the `BufReader` holds,
the vector that `read_until` fills, the channel, what `write_all` has left to
write, and the bytes the socket accepted.
-/
structure Connection (ε : Type) where
  incoming : List (ReadEvent ε)
  rd : Bytes
  line : Bytes
  rx : List String
  writing : Bytes
  accepted : Bytes

inductive Task (ε : Type) where
  | absent
  | connected (connection : Connection ε)
  | closed

/-- All connections, and the map of channels; a `Tx` stands for the connection it feeds. -/
structure Chat (κ σ ε : Type) where
  connections : HashMap σ κ
  tasks : κ → Task ε

section Read

variable {ε : Type}

/-- `io::read_until` for `\n`; at the end of the input it is ready with what it has. -/
def readUntil (line rd : Bytes) (incoming : List (ReadEvent ε)) :
    Except ε (Async Bytes) × List (ReadEvent ε) × Bytes × Bytes :=
  match rd.findIdx? (· == 10) with
  | some i => (.ok (.ready (line ++ rd.take (i + 1))), incoming, rd.drop (i + 1), [])
  | none =>
      match incoming with
      | [] => (.ok (.ready (line ++ rd)), [], [], [])
      | .chunk bytes _ :: incoming => readUntil (line ++ rd) bytes incoming
      | .notReady :: incoming => (.ok .notReady, incoming, [], line ++ rd)
      | .error failure :: incoming => (.error failure, incoming, [], [])

def Connection.readLine (connection : Connection ε) :
    Except ε (Async Bytes) × Connection ε :=
  let (result, incoming, rd, line) :=
    readUntil connection.line connection.rd connection.incoming
  (result, { connection with incoming := incoming, rd := rd, line := line })

/-- `unbounded_send`; it fails when the channel is gone. -/
def Task.unboundedSend (task : Task ε) (msg : String) : Option (Task ε) :=
  match task with
  | .connected connection => some (.connected { connection with rx := connection.rx ++ [msg] })
  | _ => none

end Read

inductive Action (κ ε : Type) where
  | accept (k : κ) (incoming : List (ReadEvent ε))
  | read (k : κ)
  | write (k : κ) (event : WriteEvent ε)

namespace Chat

variable {κ σ ε : Type} [DecidableEq κ] [DecidableEq σ] (addr : κ → σ) (display : σ → String)

def new : Chat κ σ ε := ⟨∅, fun _ => .absent⟩

def setTask (chat : Chat κ σ ε) (k : κ) (task : Task ε) : Chat κ σ ε :=
  { chat with tasks := Function.update chat.tasks k task }

omit [DecidableEq σ] in
@[simp] theorem setTask_self (chat : Chat κ σ ε) (k : κ) (task : Task ε) :
    (chat.setTask k task).tasks k = task := Function.update_self ..

omit [DecidableEq σ] in
theorem setTask_of_ne (chat : Chat κ σ ε) {j k : κ} (task : Task ε) (other : j ≠ k) :
    (chat.setTask k task).tasks j = chat.tasks j := Function.update_of_ne other ..

/-- The closure on a new connection. -/
def accept (chat : Chat κ σ ε) (k : κ) (incoming : List (ReadEvent ε)) : Chat κ σ ε :=
  { chat.setTask k (.connected ⟨incoming, [], [], [], [], []⟩) with
    connections := chat.connections.insert (addr k) k }

/-- One half is done: `select` drops it, and `then` removes the entry under the address. -/
def close (chat : Chat κ σ ε) (k : κ) : Chat κ σ ε :=
  { chat.setTask k .closed with connections := chat.connections.erase (addr k) }

/--
The loop over the entries of the others.  There is no result when a send
fails: the `unwrap` panics.
-/
def sendToOthers (own : σ) (msg : String) :
    List (Sigma fun _ : σ => κ) → (κ → Task ε) → Option (κ → Task ε)
  | [], tasks => some tasks
  | ⟨other, tx⟩ :: entries, tasks =>
      if other ≠ own then
        ((tasks tx).unboundedSend msg).bind fun task =>
          sendToOthers own msg entries (Function.update tasks tx task)
      else sendToOthers own msg entries tasks

/-- A line was read; `none` is a panic, here also of the `unwrap` on the own entry. -/
def handle (chat : Chat κ σ ε) (k : κ) (message : Option String) : Option (Chat κ σ ε) :=
  match message with
  | some msg =>
      (sendToOthers (addr k) (display (addr k) ++ ": " ++ msg) chat.connections.entries
        chat.tasks).map fun tasks => { chat with tasks := tasks }
  | none =>
      match chat.connections.lookup (addr k) with
      | none => none
      | some tx =>
          ((chat.tasks tx).unboundedSend "You didn't send valid UTF-8.").map (chat.setTask tx)

def read (chat : Chat κ σ ε) (k : κ) (connection : Connection ε) : Option (Chat κ σ ε) :=
  match connection.readLine with
  | (.error _, _) => some (chat.close addr k)
  | (.ok .notReady, after) => some (chat.setTask k (.connected after))
  | (.ok (.ready vec), after) =>
      if vec.length = 0 then some (chat.close addr k)
      else (chat.setTask k (.connected after)).handle addr display k (ofUtf8? vec)

/--
One round of the writer.  The channel ends when it is empty and its `Tx` is not
in the map any more; a write of no bytes is an error.
-/
def write (chat : Chat κ σ ε) (k : κ) (connection : Connection ε) (event : WriteEvent ε) :
    Option (Chat κ σ ε) :=
  if connection.writing.isEmpty then
    match connection.rx with
    | msg :: rx =>
        some (chat.setTask k (.connected { connection with rx := rx, writing := utf8 msg }))
    | [] =>
        if k ∈ chat.connections.entries.map Sigma.snd then some chat
        else some (chat.close addr k)
  else
    match event with
    | .wrote n =>
        if n = 0 then some (chat.close addr k)
        else if n ≤ connection.writing.length then
          some (chat.setTask k (.connected { connection with
            accepted := connection.accepted ++ connection.writing.take n
            writing := connection.writing.drop n }))
        else none
    | .notReady => some chat
    | .error _ => some (chat.close addr k)

def step? (chat : Chat κ σ ε) : Action κ ε → Option (Chat κ σ ε)
  | .accept k incoming =>
      match chat.tasks k with
      | .absent => some (chat.accept addr k incoming)
      | _ => none
  | .read k =>
      match chat.tasks k with
      | .connected connection => chat.read addr display k connection
      | _ => none
  | .write k event =>
      match chat.tasks k with
      | .connected connection => chat.write addr k connection event
      | _ => none

def system : System (Chat κ σ ε) (Action κ ε) := ⟨new, step? addr display⟩

end Chat

end RustDemo.TokioChat
