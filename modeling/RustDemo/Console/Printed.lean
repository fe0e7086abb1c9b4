import RustDemo.Chat.Rooms
import RustDemo.Console.Connections

/-!
# What the clients print

Besides the texts of the others a client prints the joins that it asked for,
lists of rooms, and notices of its own.  Each room of a list is "Main" or one
that the user of some client wanted to join.
-/

namespace RustDemo.Console

open RustDemo.Chat RustDemo.Text RustDemo.Transition

variable {ρ ε : Type}

def textsIn (responses : List ChatResponse) : List String :=
  responses.filterMap fun response =>
    match response with
    | .message text => some text
    | _ => none

def Client.lines (client : Client) : List String := client.output.flatMap Output.lines

variable [DecidableEq ρ]

section Sessions

variable {labels : List (Label ρ)} {state : State ρ}

end Sessions

namespace World

variable {clients : ρ → ChatClient} {requests : Json ε ChatRequest}
  {responses : Json ε ChatResponse} {world : World ρ}

end World

end RustDemo.Console
