import PipelineResolution.Expression.Term
import PipelineResolution.Json.Basic
import PipelineResolution.Text.Identifier
import PipelineResolution.Text.Marker
import PipelineResolution.Text.Source

/-!
# The grammar of the expression language

A rule that contains itself refers to the rules of a `Level` one below its own, so reading ends. A
quoted template is spelled anew without quotes and escapes, and that text is read as a template
again; what stands inside an interpolation keeps its blanks and comments. Templates are quoted or
stand alone; heredoc templates are left out.
-/
namespace PipelineResolution.Grammar
open Reading Text Text.Parser

/-- A value read from a source that keeps the text. -/
abbrev Rule (α : Type) : Type := Reading Source α

/-- How a term is read. -/
structure Mode where
  /-- Whether a line break is a blank and line comments are allowed. -/
  lines : Bool
  /-- Whether a quoted template is read again as it is spelled. -/
  rereads : Bool

def isSpace (c : Char) : Bool := c == ' ' || c == '\t'

def isLineBlank (c : Char) : Bool := isSpace c || c == '\n' || c == '\r'

def blockComment : Rule Unit := do
  text "/*"
  let _ ← many (do
    notAhead (text "*/")
    satisfy fun _ => true)
  text "*/"

/-- A comment up to the end of its line, where a carriage return comes only before a line feed. -/
def lineComment : Rule Unit := do
  text "#" <|> text "//"
  let _ ← many (do
    let _ ← span fun c => c != '\n' && c != '\r'
    text "\r"
    nextIs (· == some '\n'))
  let _ ← span fun c => c != '\n' && c != '\r'
  nextIs (· != some '\r')

def blanks (lines : Bool) : Rule Unit := do
  let blank : Rule Unit := do
    let _ ← span1 (if lines then isLineBlank else isSpace)
  let _ ← many (blank <|> blockComment <|> (if lines then lineComment else fail))

/-- Blanks and comments, then what a rule reads. -/
def padded (lines : Bool) (p : Rule α) : Rule α := do
  blanks lines
  p

def identifier : Rule String := do
  let first ← satisfy isIdentifierStart
  let more ← span isIdentifierRest
  return String.ofList (first :: more)

def exponentPart : Rule (List Char) := do
  let mark ← satisfy fun c => c == 'e' || c == 'E'
  let sign ← optional (satisfy fun c => c == '+' || c == '-')
  return mark :: sign.toList ++ (← span1 Char.isDigit)

/-- A number without a sign: an integer of the unsigned 64-bit range, or a finite number with a
fraction or an exponent. -/
def numeral : Rule Numeral := do
  let whole ← span1 Char.isDigit
  let fraction ← optional (do char '.'; return '.' :: (← span1 Char.isDigit))
  let power ← optional exponentPart
  if fraction.isNone && power.isNone then
    match digitsToNat? whole with
    | some n => if Word.isUnsigned n then return .unsigned n else fail
    | none => fail
  else
    match Number.ofText? (whole ++ fraction.getD [] ++ power.getD []) with
    | some x => if x.isFinite then return .ofNumber x else fail
    | none => fail

def escape : Rule Char := do
  match ← satisfy fun _ => true with
  | 'n' => return '\n'
  | 'r' => return '\r'
  | 't' => return '\t'
  | '\\' => return '\\'
  | '"' => return '"'
  | '/' => return '/'
  | 'b' => return Char.ofNat 8
  | 'f' => return Char.ofNat 12
  | 'u' => codePoint 4
  | 'U' => codePoint 8
  | _ => fail

structure Piece where
  part : Part
  spelled : List Char

namespace Piece

def listText (pieces : List Piece) : List Char := pieces.flatMap Piece.spelled

/-- The text of pieces as a template in quotes. -/
def listQuoted (pieces : List Piece) : List Char :=
  '"' :: pieces.flatMap (fun piece =>
    match piece.part with
    | .text _ => piece.spelled.flatMap Json.escapeChar
    | _ => piece.spelled) ++ ['"']

end Piece

/-- The rules for the terms and templates inside the one that is read. -/
structure Level where
  /-- A term. -/
  term (mode : Mode) : Rule Term
  /-- A term without a conditional outside parentheses. -/
  chain (mode : Mode) : Rule Term
  /-- The pieces of a template. -/
  pieces (quoted rereads : Bool) : Rule (List Piece)

/-- One character of literal text. `$` and `%` open a part when a brace follows. -/
def literalChar (quoted : Bool) : Rule (List Char) :=
  (do text "$$\x7b"; return ['$', '\x7b'])
  <|> (do text "%%\x7b"; return ['%', '\x7b'])
  <|> (do
    notAhead (text "$\x7b" <|> text "%\x7b")
    match ← satisfy fun c => !(quoted && c == '"') with
    | '\\' => if quoted then return [← escape] else return ['\\']
    | c => return [c])

/-- Literal text, spelled without the escapes of quoted text. -/
def literalText (quoted : Bool) : Rule Part := do
  let plain := span1 fun c => c != '$' && c != '%' && c != '"' && c != '\\'
  let found ← Source.respell escapeMarkers (do
    return (← many (plain <|> literalChar quoted)).flatten)
  if found.isEmpty then fail else return .text (String.ofList found)

def tilde : Rule Bool := do
  return (← optional (char '~')).isSome

/-- What stands between an opening of two characters and the closing brace, with the strip marks at
both ends. -/
def marker (opening : String) (body : Rule α) : Rule (Strip × α) := do
  text opening
  let left ← tilde
  let found ← padded true body
  blanks true
  let right ← tilde
  char '\x7d'
  return (⟨left, right⟩, found)

def interpolation (inner : Level) (rereads : Bool) : Rule Part := do
  let (strip, term) ← marker "$\x7b" (inner.term ⟨true, rereads⟩)
  return .interpolation strip term

def directive (body : Rule α) : Rule (Strip × α) := marker "%\x7b" body

/-- The body of a directive: literal text has no escapes there. -/
def body (inner : Level) (rereads : Bool) : Rule (List Part) := do
  return (← inner.pieces false rereads).map Piece.part

def branch (inner : Level) (rereads : Bool) : Rule Part := do
  let (opened, test) ← directive (do text "if"; padded true (inner.term ⟨false, rereads⟩))
  let yes ← body inner rereads
  let other ← optional (do
    let (strip, _) ← directive (text "else")
    return (strip, ← body inner rereads))
  let (closed, _) ← directive (text "endif")
  let whole : Strip := ⟨opened.left, closed.right⟩
  match other with
  | some (strip, no) =>
    return .branch whole test ⟨opened.right, strip.left⟩ yes ⟨strip.right, closed.left⟩ no
  | none => return .branch whole test ⟨opened.right, closed.left⟩ yes ⟨false, false⟩ []

def loopNames : Rule LoopNames := do
  let first ← identifier
  blanks true
  let second ← optional (do
    char ','
    padded true identifier)
  blanks true
  match second with
  | some value => return ⟨some first, value⟩
  | none => return ⟨none, first⟩

def loopHead (inner : Level) (rereads : Bool) : Rule (LoopNames × Term) := do
  text "for"
  let names ← padded true loopNames
  text "in"
  return (names, ← padded true (inner.term ⟨false, rereads⟩))

def loop (inner : Level) (rereads : Bool) : Rule Part := do
  let (opened, names, source) ← directive (loopHead inner rereads)
  let parts ← body inner rereads
  let (closed, _) ← directive (text "endfor")
  return .loop ⟨opened.left, closed.right⟩ names source ⟨opened.right, closed.left⟩ parts

def pieces (inner : Level) (quoted rereads : Bool) : Rule (List Piece) := do
  let part := literalText quoted <|> interpolation inner rereads <|> branch inner rereads
    <|> loop inner rereads
  let found ← many (Source.spelling part)
  return found.map fun (part, spelled) => ⟨part, spelled⟩

def quoted (inner : Level) (rereads : Bool) : Rule Term := do
  let pieces ← Source.respell Piece.listQuoted (do
    char '"'
    let pieces ← inner.pieces true false
    char '"'
    return pieces)
  match pieces.map Piece.part with
  | [] => return .string ""
  | [.text s] => return .string s
  | _ =>
    let cs := Piece.listText pieces
    let s := String.ofList cs
    if rereads then
      match (inner.pieces false true).whole? (Source.ofChars cs) with
      | some again => return .template s (again.map Piece.part)
      | none => return .malformed s
    else return .template s []

/-- Items with separators, where the last separator may stand before the end. -/
def separated (item : Rule α) : Rule (List α) := do
  match ← optional (sepBy1 (padded true item) (padded true (char ','))) with
  | none => return []
  | some items =>
    let _ ← optional (padded true (char ','))
    return items

/-- Whether a loop opens the brackets. -/
def isLoop : Rule Bool := isAhead (do
  blanks true
  text "for"
  nextIs fun c => c.any fun c => isSpace c || c == '\n' || c == '/' || c == '#')

def bracketLoop (inner : Level) (rereads : Bool) : Rule (LoopNames × Term) := do
  let head ← padded true (loopHead inner rereads)
  blanks true
  char ':'
  return head

def loopTests (inner : Level) (rereads : Bool) : Rule (List Term) := do
  let test ← optional (padded true (do text "if"; padded true (inner.term ⟨false, rereads⟩)))
  return test.toList

/-- An operand, and whether line breaks are blanks in what follows it. -/
abbrev Operand : Type := Term × Bool

def list (inner : Level) (mode : Mode) : Rule Operand := do
  let inside : Mode := { mode with lines := true }
  char '['
  if ← isLoop then
    let (names, source) ← bracketLoop inner mode.rereads
    let body ← padded true (inner.term inside)
    let tests ← loopTests inner mode.rereads
    padded true (char ']')
    return (.listFor names source body tests, true)
  else
    let items ← separated (inner.term inside)
    padded true (char ']')
    return (.array items, mode.lines || !items.isEmpty)

def objectEntry (inner : Level) (mode : Mode) : Rule (Key × Term) := do
  let key ← inner.term mode
  padded mode.lines (char '=' <|> char ':')
  let value ← padded mode.lines (inner.term mode)
  match key with
  | .variable name => return (.name name, value)
  | key => return (.computed key, value)

def object (inner : Level) (mode : Mode) : Rule Operand := do
  char '\x7b'
  if ← isLoop then
    let (names, source) ← bracketLoop inner mode.rereads
    let key ← padded true (inner.term { mode with lines := false })
    padded true (text "=>")
    let body ← padded true (inner.term { mode with lines := true })
    let grouped ← optional (padded true (text "..."))
    let tests ← loopTests inner mode.rereads
    padded true (char '\x7d')
    return (.objectFor names source key body grouped.isSome tests, true)
  else
    let ending : Rule Unit := do
      blanks false
      char ',' <|> char '\n' <|> text "\r\n"
        <|> nextIs fun c => c == some '\x7d' || c == some '#' || c == some '/'
    let entries ← many (do
      let entry ← padded true (objectEntry inner mode)
      ending
      return entry)
    padded true (char '\x7d')
    return (.object (entries.foldl (fun es (key, value) => Term.putEntry es key value) []),
      mode.lines)

def parenthesised (inner : Level) (mode : Mode) : Rule Operand := do
  char '('
  let term ← padded true (inner.term { mode with lines := true })
  padded true (char ')')
  return (.paren term, mode.lines)

def arguments (inner : Level) (mode : Mode) : Rule (List Term × Bool) := do
  let argument := padded true (inner.term { mode with lines := true })
  char '('
  match ← optional (sepBy1 argument (padded true (char ','))) with
  | none =>
    padded true (char ')')
    return ([], false)
  | some items =>
    let spread ← optional (padded true (text "..."))
    let _ ← optional (if spread.isSome then fail else padded true (char ','))
    padded true (char ')')
    return (items, spread.isSome)

/-- A name: a keyword, a function call or a variable. -/
def named (inner : Level) (mode : Mode) : Rule Operand := do
  let name ← identifier
  let spaces ← many (do
    padded mode.lines (text "::")
    padded mode.lines identifier)
  match ← optional (padded mode.lines (arguments inner mode)) with
  | some (items, spread) =>
    return (.call ("::".intercalate (name :: spaces)) items spread, mode.lines || !items.isEmpty)
  | none =>
    if !spaces.isEmpty then fail
    else match name with
      | "null" => return (.null, mode.lines)
      | "true" => return (.bool true, mode.lines)
      | "false" => return (.bool false, mode.lines)
      | _ => return (.variable name, mode.lines)

def negativeNumeral : Rule Term := do
  char '-'
  return .number (← padded false numeral).neg

def operand (inner : Level) (mode : Mode) : Rule Operand :=
  let plain (p : Rule Term) : Rule Operand := do return (← p, mode.lines)
  plain (quoted inner mode.rereads) <|> list inner mode <|> object inner mode
    <|> parenthesised inner mode <|> plain (do return .number (← numeral))
    <|> plain negativeNumeral <|> named inner mode

/-- An operand with its unary operators, of which the last one counts. -/
def signedOperand (inner : Level) (mode : Mode) : Rule Operand := do
  let ops ← many (do
    notAhead negativeNumeral
    let op : UnaryOp ← (do char '-'; return .negate) <|> (do char '!'; return .not)
    blanks false
    return op)
  let (term, lines) ← operand inner mode
  match ops.getLast? with
  | some op => return (.unary op term, lines)
  | none => return (term, lines)

/-- The position after a point; a zero is a position of its own. -/
def position : Rule Accessor := do
  let digits ← (do char '0'; return ['0']) <|> span1 Char.isDigit
  match digitsToNat? digits with
  | some n => if Word.isUnsigned n then return .position n else fail
  | none => fail

def accessor (inner : Level) (mode : Mode) : Rule Accessor :=
  (do
    char '.'
    nextIs (· != some '.')
    blanks true
    let eachMember : Rule Accessor := do
      char '*'
      let names ← many (do
        padded mode.lines (char '.')
        padded true identifier)
      return .eachMember names
    eachMember <|> position <|> (do return .member (← identifier)))
  <|> (do
    char '['
    let each : Rule Accessor := do
      padded true (char '*')
      return .each
    let found ← each
      <|> (do return .index (← padded true (inner.term { mode with lines := true })))
    padded true (char ']')
    return found)

def accessed (inner : Level) (mode : Mode) : Rule Operand := do
  let (base, lines) ← signedOperand inner mode
  let accessors ← many (padded lines (accessor inner { mode with lines }))
  if accessors.isEmpty then return (base, lines) else return (.access base accessors, lines)

/-- A binary operator. Two slashes open a comment. -/
def binaryOp : Rule BinaryOp := do
  notAhead (text "//")
  BinaryOp.all.foldr (fun op other => (do text op.symbol; return op) <|> other) fail

/-- A term without a conditional, and whether line breaks are blanks in what follows it. -/
def chain (inner : Level) (mode : Mode) : Rule Operand := do
  let (left, lines) ← accessed inner mode
  match ← optional (padded lines binaryOp) with
  | none => return (left, lines)
  | some op =>
    let right ← padded lines (inner.chain { mode with lines })
    return (Term.attach left op right, lines)

/-- A term. After a binary operator the first choice of a conditional is no conditional itself. -/
def term (inner : Level) (mode : Mode) : Rule Term := do
  let (test, lines) ← chain inner mode
  let mode := { mode with lines }
  match ← optional (padded lines (char '?')) with
  | none => return test
  | some _ =>
    let yes ← padded lines (match test with
      | .binary .. => inner.chain mode
      | _ => inner.term mode)
    padded lines (char ':')
    let no ← padded lines (inner.term mode)
    return .conditional test yes no

/-- The rules for terms and templates of a given depth. -/
def level : Nat → Level
  | 0 => ⟨fun _ => fail, fun _ => fail, fun _ _ => fail⟩
  | depth + 1 =>
    let inner := level depth
    ⟨term inner, fun mode => do return (← chain inner mode).1, pieces inner⟩

def term? (s : String) : Option Term :=
  let cs := s.toList
  ((level (cs.length + 1)).term ⟨false, true⟩).whole? (Source.ofChars cs)

def template? (s : String) : Option (List Part) :=
  let cs := s.toList
  (((level (cs.length + 1)).pieces false true).whole? (Source.ofChars cs)).map
    (List.map Piece.part)

end PipelineResolution.Grammar
