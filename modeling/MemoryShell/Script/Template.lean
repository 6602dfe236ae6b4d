/-
  MemoryShell/Script/Template.lean
  ================================
  **Cutting the text of a template into literal runs and substitutions.**

  A substitution reaches from its mark to the brace that matches it, braces being counted as they
  stand in the text.  The text between is a source of its own, read by whoever asks for the parts.
-/
import MemoryShell.Script.Token
import MemoryShell.Script.Program

namespace MemoryShell.Script

/-- The character of an escape in a template; an escaped line end stands for nothing. -/
def templateEscape (c : Char) : List Char :=
  match c with
  | 'n' => ['\n']
  | 't' => ['\t']
  | 'r' => ['\r']
  | '0' => ['\x00']
  | '\n' => []
  | c => [c]

/-- Cut a text at the brace that closes the innermost of `open + 1` open ones around it: what stands
    before that brace and behind it.  The part that is read is held backwards. -/
def matchBrace : Nat → List Char → List Char → Option (List Char × List Char)
  | _, _, [] => none
  | opened, acc, c :: cs =>
    if c = '\x7b' then matchBrace (opened + 1) (c :: acc) cs
    else if c = '\x7d' then
      match opened with
      | 0 => some (acc.reverse, cs)
      | n + 1 => matchBrace n (c :: acc) cs
    else matchBrace opened (c :: acc) cs

/-- The literal run that has been read backwards, as a part, unless it is empty. -/
def literalPart (literal : List Char) : List TemplatePart :=
  if literal.isEmpty then [] else [.literal (String.ofList literal.reverse)]

/-- Cut the text of a template into parts.  Every turn takes a character, so the length of the text
    bounds the turns; `literal` holds the run that is being read, backwards. -/
def templatePartsFrom (fragment : List Char → Except SyntaxError Expr) (position : Position) :
    Nat → List Char → List Char → Except SyntaxError (List TemplatePart)
  | 0, literal, _ => .ok (literalPart literal)
  | _ + 1, literal, [] => .ok (literalPart literal)
  | fuel + 1, literal, c :: cs =>
    match c, cs with
    | '\\', escaped :: rest =>
      templatePartsFrom fragment position fuel ((templateEscape escaped).reverse ++ literal) rest
    | '$', '\x7b' :: inner =>
      match matchBrace 0 [] inner with
      | none => .error ⟨.unterminatedTemplate, position⟩
      | some (source, rest) => do
        let e ← fragment source
        let parts ← templatePartsFrom fragment position fuel [] rest
        return literalPart literal ++ .expr e :: parts
    | c, cs => templatePartsFrom fragment position fuel (c :: literal) cs

/-- The parts of a template, given a reader for the sources of its substitutions. -/
def templateParts (fragment : List Char → Except SyntaxError Expr) (t : Token) :
    Except SyntaxError (List TemplatePart) :=
  let text := t.text.toList
  templatePartsFrom fragment t.position text.length [] text

end MemoryShell.Script
