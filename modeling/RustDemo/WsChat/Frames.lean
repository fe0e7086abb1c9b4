import RustDemo.WsChat.Backlog
import RustDemo.WsChat.Nicks

/-!
# Frames

What the server announces is a JSON value, but it is printed with `{:?}`, which
writes the constructors of `Value`.  So no frame that the server builds can be
read as the protocol has it; only frames of clients that it passes on can.
-/

namespace RustDemo.WsChat

inductive Purpose where
  | message (posted : Message)
  | joined (system : Message)
  | left (system : Message)
  | error (text : String)

namespace Purpose

def path : Purpose → String
  | .message _ => "/message"
  | .joined _ => "/joined"
  | .left _ => "/left"
  | .error _ => "/error"

def message? : Purpose → Option Message
  | .message posted => some posted
  | .joined system => some system
  | .left system => some system
  | .error _ => none

def content : Purpose → Value
  | .message posted => posted.toValue
  | .joined system => system.toValue
  | .left system => system.toValue
  | .error text => .string text

def value (purpose : Purpose) : Value := frame purpose.path purpose.content

end Purpose

def Output.text? : Output → Option String
  | .send text => some text
  | .broadcast message => message.asText

/-- The frame reads as a wrapper with the path of its purpose, and with its message. -/
def Follows (crates : Crates) (purpose : Purpose) (output : Output) : Prop :=
  ∃ text wrapper, output.text? = some text ∧ crates.fromStr text = some wrapper ∧
    wrapper.path = purpose.path ∧
    ∀ message, purpose.message? = some message → Message.fromValue wrapper.content = some message

namespace ChatHandler

variable {crates : Crates}

end ChatHandler

end RustDemo.WsChat
