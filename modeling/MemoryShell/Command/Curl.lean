/-
  MemoryShell/Command/Curl.lean
  =============================
  **Web requests: reading them from words, and rendering what comes back.**

  The first word that is no option is the address, and only the words before it count.  An option
  carries its value in its own word, behind the first blank of it; the method is the second of the
  parts between blanks, and a header is cut at its first colon.  Data is sent with the method POST
  alone.  The request itself is made by a collaborator, which may be missing.
-/
import MemoryShell.Dict
import MemoryShell.Text.Blank
import MemoryShell.Text.Search

namespace MemoryShell

/-! ### Requests and answers -/

/-- A request for a web page. -/
structure Request where
  url : String
  method : String
  headers : Dict String
  body : Option String
  includeHeaders : Bool
deriving Repr

/-- An answer, of whatever status. -/
structure Response where
  status : Nat
  statusText : String
  body : String
deriving Repr

/-- What a fetch comes to: an answer, or no answer and a message why. -/
inductive Fetched where
  | response (r : Response)
  | failed (message : String)
deriving Repr

/-- A collaborator that makes requests. -/
abbrev Fetch := Request → Fetched

namespace Curl

/-- Why words are no request. -/
inductive RequestError where
  | noWords
  | noUrl
deriving DecidableEq, Repr

def RequestError.message : RequestError → String
  | .noWords => "Usage: curl [options] <url>"
  | .noUrl => "curl: missing URL"

/-! ### Reading a request -/

def startsWith (start : List Char) (word : String) : Bool := start.isPrefixOf word.toList

/-- The value in an option's word: all behind its first blank, unless that is nothing. -/
def inlineValue (option : String) : Option (List Char) :=
  match Text.cutAt ' ' option.toList with
  | some (_, value) => if value.isEmpty then none else some value
  | none => none

/-- A header: a name and a value around the first colon, trimmed, neither of them empty. -/
def header? (text : List Char) : Option (String × String) := do
  let (name, value) ← Text.cutAt ':' text
  let name := Text.trimChars name
  let value := Text.trimChars value
  if name.isEmpty || value.isEmpty then none
  else some (String.ofList name, String.ofList value)

/-- The method that the first option `-X` names, else GET. -/
def method (options : List String) : String :=
  let named := do
    let option ← options.find? (startsWith ['-', 'X'])
    let (_, rest) ← Text.cutAt ' ' option.toList
    let name := rest.takeWhile (· ≠ ' ')
    if name.isEmpty then none else some (String.ofList name)
  named.getD "GET"

def data (options : List String) : Option String := do
  let option ← options.find? (startsWith ['-', 'd'])
  return String.ofList (← inlineValue option)

/-- The headers of all options `-H`; a name given twice has its last value. -/
def headers (options : List String) : Dict String :=
  Dict.ofList <| (options.filter (startsWith ['-', 'H'])).filterMap fun option =>
    (inlineValue option).bind header?

def isOption (word : String) : Bool := startsWith ['-'] word

def request (words : List String) : Except RequestError Request :=
  if words.isEmpty then .error .noWords
  else
    let options := words.takeWhile isOption
    match words.dropWhile isOption with
    | [] => .error .noUrl
    | url :: _ =>
      let method := method options
      .ok {
        url
        method
        headers := headers options
        body := if method = "POST" then data options else none
        includeHeaders := options.contains "-i" }

/-! ### Rendering an answer -/

/-- What is shown when there is no collaborator. -/
def networkUnavailable : String :=
  "curl: (6) Could not resolve host (network not available)"

/-- The text that a fetch shows: the body, under the status line if that is asked for; a status
    outside 200 to 299 is a failure. -/
def render (request : Request) : Fetched → String
  | .failed message => "curl: " ++ message
  | .response r =>
    if 200 ≤ r.status ∧ r.status < 300 then
      if request.includeHeaders then
        "HTTP " ++ toString r.status ++ " " ++ r.statusText ++ "\n" ++ r.body
      else r.body
    else "curl: HTTP error! status: " ++ toString r.status

/-- Make a request and give the text to show. -/
def perform (fetch : Option Fetch) (request : Request) : String :=
  match fetch with
  | none => networkUnavailable
  | some fetch => render request (fetch request)

end Curl

end MemoryShell
