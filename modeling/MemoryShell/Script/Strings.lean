/-
  MemoryShell/Script/Strings.lean
  ===============================
  **The methods of strings, numbers and truth values.**

  A string is worked on as the list of its characters.  Arguments are brought to text or number
  first; a missing one is undefined, whose text is a word like any other.
-/
import MemoryShell.Text.Case
import MemoryShell.Text.Search
import MemoryShell.Script.Machine
import MemoryShell.Script.Position

namespace MemoryShell.Script

/-! ### Filling and repeating -/

/-- A text followed by itself, so many times in all. -/
def repeated (n : Nat) (s : String) : String := n.repeat (fun all => all ++ s) ""

/-- The first `n` characters of a text that is repeated for ever; none of the empty text. -/
def filling (n : Nat) (s : String) : String :=
  if s.isEmpty then ""
  else repeated (n / s.length) s ++ String.ofList (s.toList.take (n % s.length))

/-- The pieces of a text: its characters if the separator is empty. -/
def pieces (separator text : List Char) : List (List Char) :=
  if separator.isEmpty then text.map fun c => [c] else Text.splitOn separator text

def textValue (text : List Char) : Value := .string (String.ofList text)

namespace Act

def argumentText (args : List Value) (i : Nat) : Act σ (List Char) := do
  return (← display (argument args i)).toList

def argumentNumber (args : List Value) (i : Nat) : Act σ Float := number (argument args i)

variable (limits : Limits)

/-- A string repeated, unless the result would be too long. -/
def repeatText (s : String) (args : List Value) : Act σ Value := do
  let count := integerPart (← argumentNumber args 0)
  if count < 0 || count.isInf then throwMistake (.repeatCount (numberText count))
  else if count * Float.ofNat s.utf8ByteSize > Float.ofNat limits.maxStringLength then
    throwMistake .stringLength
  else if s.isEmpty then return .string ""
  else return .string (repeated count.toUInt64.toNat s)

/-- A string filled up to a length, before or behind it. -/
def padText (before : Bool) (s : String) (args : List Value) : Act σ Value := do
  let target := integerPart (← argumentNumber args 0)
  if target > Float.ofNat limits.maxStringLength then throwMistake .stringLength
  else
    let fill ← match argument args 1 with
      | .undefined => pure " "
      | v => display v
    let length := target.toUInt64.toNat
    if length ≤ s.length || fill.isEmpty then return .string s
    else
      let extra := filling (← need (without? length s.length)) fill
      return .string (if before then extra ++ s else s ++ extra)

/-- The pieces of a string, as a new array. -/
def splitText (s : String) (args : List Value) : Act σ Value := do
  match argument args 0 with
  | .undefined => newArray #[.string s]
  | _ => newArray ((pieces (← argumentText args 0) s.toList).map textValue).toArray

/-- A value as a position from the start, moved to the nearest end; a missing one has a place of its
    own. -/
def clampedOr (default : Nat) (v : Value) (length : Nat) : Act σ Nat :=
  match v with
  | .undefined => pure default
  | v => do return clamped (← number v) length

/-- The part of a string between two positions in either order. -/
def substringText (s : String) (args : List Value) : Act σ Value := do
  let text := s.toList
  let a ← clampedOr 0 (argument args 0) text.length
  let b ← clampedOr text.length (argument args 1) text.length
  return textValue (← need (between? (min a b) (max a b) text))

/-- What a method of a string gives, before the length of a string is checked. -/
def stringResult (method : Method) (s : String) (args : List Value) : Act σ Value := do
  let text := s.toList
  match method with
  | .at_ =>
    let i := elementAt? (← argumentNumber args 0) text.length
    return ((i.bind fun i => text[i]?).map fun c => textValue [c]).getD .undefined
  | .charAt =>
    match plainElementAt? (← argumentNumber args 0) text.length with
    | some i => return textValue [← need text[i]?]
    | none => return textValue []
  | .charCodeAt =>
    match plainElementAt? (← argumentNumber args 0) text.length with
    | some i => return .number (Float.ofNat (← need text[i]?).toNat)
    | none => return .number notANumber
  | .indexOf => return positionValue (Text.first? (← argumentText args 0) text)
  | .lastIndexOf => return positionValue (Text.last? (← argumentText args 0) text)
  | .includes => return .bool (Text.occurs (← argumentText args 0) text)
  | .startsWith => return .bool ((← argumentText args 0).isPrefixOf text)
  | .endsWith => return .bool ((← argumentText args 0).isSuffixOf text)
  | .slice =>
    let (start, stop) ← lookHeap fun h => h.part (argument args 0) (argument args 1) text.length
    return textValue (← need (between? start (max start stop) text))
  | .substring => substringText s args
  | .toUpperCase => return .string (Text.toUpper s)
  | .toLowerCase => return .string (Text.toLower s)
  | .trim => return .string (Text.trim s)
  | .trimStart => return .string (Text.trimStart s)
  | .trimEnd => return .string (Text.trimEnd s)
  | .split => splitText s args
  | .replace =>
    let pattern ← argumentText args 0
    return textValue (Text.replaceFirst pattern (← argumentText args 1) text)
  | .replaceAll =>
    let pattern ← argumentText args 0
    return textValue (Text.replaceAll pattern (← argumentText args 1) text)
  | .repeat_ => repeatText limits s args
  | .padStart => padText limits true s args
  | .padEnd => padText limits false s args
  | .concat =>
    let texts ← args.mapM display
    return .string (s ++ String.join texts)
  | .toText => return .string s
  | _ => return .undefined

def stringMethod (method : Method) (s : String) (args : List Value) : Act σ Value := do
  checkText limits (← stringResult limits method s args)

def maxPlaces : Nat := 100

def numberMethod (method : Method) (x : Float) (args : List Value) : Act σ Value := do
  match method, argument args 0 with
  | .toFixed, v => return .string (fixedText x (min (integerPart (← number v)).toUInt64.toNat maxPlaces))
  | _, .undefined => return .string (numberText x)
  | _, v => return .string (radixText x (integerPart (← number v)).toUInt32.toNat)

end Act

end MemoryShell.Script
