import RustDemo.Text.JsonString

/-!
# Requests, responses and their JSON text

`serde_json` is not part of the repository, so the codecs take it as a
parameter: a printer and a parser for one message type.  `compactRequests` and
`compactResponses` are the printer and parser for the representation the
attribute `tag = "cmd", content = "data"` asks for.
-/

namespace RustDemo.Chat

open RustDemo.Text RustDemo.Text.JsonString

/-- Client request -/
inductive ChatRequest where
  | list
  | join (name : String)
  | message (text : String)
  | ping
  deriving DecidableEq, Repr

/-- Server response -/
inductive ChatResponse where
  | ping
  | rooms (names : List String)
  | joined (name : String)
  | message (text : String)
  deriving DecidableEq, Repr

/-- `serde_json` at one type: `to_string` as bytes, and `from_slice`. -/
structure Json (ε α : Type) where
  toString : α → List UInt8
  fromSlice : List UInt8 → Except ε α

/-- Parsing the printed text of a message gives the message. -/
def Json.RoundTrips {ε α : Type} (json : Json ε α) : Prop :=
  ∀ msg, json.fromSlice (json.toString msg) = .ok msg

namespace Compact

def key (opening : UInt8) (name : String) : List UInt8 := opening :: (quoted name ++ [0x3A])

def readKey (opening : UInt8) (name : String) : List UInt8 → Option (List UInt8)
  | [] => none
  | byte :: rest =>
      if byte ≠ opening then none
      else
        (readQuoted rest).bind fun
          | (found, colon :: last) => if found = name ∧ colon = 0x3A then some last else none
          | (_, []) => none

theorem readKey_key (opening : UInt8) (name : String) (rest : List UInt8) :
    readKey opening name (key opening name ++ rest) = some rest := by
  have read := readQuoted_quoted name (0x3A :: rest)
  simp [key, readKey, read]

/-- A variant without content. -/
def unit (tag : String) : List UInt8 := key 0x7B "cmd" ++ (quoted tag ++ [0x7D])

/-- A variant with content. -/
def tagged (tag : String) (content : List UInt8) : List UInt8 :=
  key 0x7B "cmd" ++ (quoted tag ++ (key 0x2C "data" ++ (content ++ [0x7D])))

def readTag (bytes : List UInt8) : Option (String × List UInt8) :=
  (readKey 0x7B "cmd" bytes).bind readQuoted

theorem readTag_unit (tag : String) : readTag (unit tag) = some (tag, [0x7D]) := by
  rw [readTag, unit, readKey_key]
  exact readQuoted_quoted tag [0x7D]

theorem readTag_tagged (tag : String) (content : List UInt8) :
    readTag (tagged tag content) = some (tag, key 0x2C "data" ++ (content ++ [0x7D])) := by
  rw [readTag, tagged, readKey_key]
  exact readQuoted_quoted tag _

/-- The content of a variant, read by `read` and closed by the last brace. -/
def readContent {α : Type} (read : List UInt8 → Option (α × List UInt8)) (bytes : List UInt8) :
    Option α :=
  ((readKey 0x2C "data" bytes).bind read).bind fun (content, last) =>
    if last = [0x7D] then some content else none

theorem readContent_string (text : String) :
    readContent readQuoted (key 0x2C "data" ++ (quoted text ++ [0x7D])) = some text := by
  have read := readQuoted_quoted text [0x7D]
  simp [readContent, readKey_key, read]

theorem readContent_list (names : List String) :
    readContent readQuotedList (key 0x2C "data" ++ (quotedList names ++ [0x7D])) = some names := by
  have read := readQuotedList_quotedList names [0x7D]
  simp [readContent, readKey_key, read]

def printRequest : ChatRequest → List UInt8
  | .list => unit "List"
  | .join name => tagged "Join" (quoted name)
  | .message text => tagged "Message" (quoted text)
  | .ping => unit "Ping"

def readRequest (bytes : List UInt8) : Option ChatRequest :=
  (readTag bytes).bind fun (tag, rest) =>
    if tag = "List" then if rest = [0x7D] then some .list else none
    else if tag = "Ping" then if rest = [0x7D] then some .ping else none
    else if tag = "Join" then (readContent readQuoted rest).map .join
    else if tag = "Message" then (readContent readQuoted rest).map .message
    else none

theorem readRequest_printRequest (request : ChatRequest) :
    readRequest (printRequest request) = some request := by
  cases request with
  | list => simp [readRequest, printRequest, readTag_unit]
  | join name => simp [readRequest, printRequest, readTag_tagged, readContent_string]
  | message text => simp [readRequest, printRequest, readTag_tagged, readContent_string]
  | ping => simp [readRequest, printRequest, readTag_unit]

def printResponse : ChatResponse → List UInt8
  | .ping => unit "Ping"
  | .rooms names => tagged "Rooms" (quotedList names)
  | .joined name => tagged "Joined" (quoted name)
  | .message text => tagged "Message" (quoted text)

def readResponse (bytes : List UInt8) : Option ChatResponse :=
  (readTag bytes).bind fun (tag, rest) =>
    if tag = "Ping" then if rest = [0x7D] then some .ping else none
    else if tag = "Rooms" then (readContent readQuotedList rest).map .rooms
    else if tag = "Joined" then (readContent readQuoted rest).map .joined
    else if tag = "Message" then (readContent readQuoted rest).map .message
    else none

theorem readResponse_printResponse (response : ChatResponse) :
    readResponse (printResponse response) = some response := by
  cases response with
  | ping => simp [readResponse, printResponse, readTag_unit]
  | rooms names => simp [readResponse, printResponse, readTag_tagged, readContent_list]
  | joined name => simp [readResponse, printResponse, readTag_tagged, readContent_string]
  | message text => simp [readResponse, printResponse, readTag_tagged, readContent_string]

theorem length_le_tagged (tag text : String) :
    (utf8 text).length ≤ (tagged tag (quoted text)).length := by
  have content := length_le_quoted text
  simp only [tagged, List.length_append]
  omega

end Compact

def compactRequests : Json Unit ChatRequest where
  toString := Compact.printRequest
  fromSlice bytes := (Compact.readRequest bytes).elim (.error ()) .ok

def compactResponses : Json Unit ChatResponse where
  toString := Compact.printResponse
  fromSlice bytes := (Compact.readResponse bytes).elim (.error ()) .ok

theorem compactRequests_roundTrips : compactRequests.RoundTrips := by
  intro request
  simp [compactRequests, Compact.readRequest_printRequest]

theorem compactResponses_roundTrips : compactResponses.RoundTrips := by
  intro response
  simp [compactResponses, Compact.readResponse_printResponse]

end RustDemo.Chat
