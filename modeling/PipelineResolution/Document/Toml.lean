import PipelineResolution.Calendar
import PipelineResolution.Json.Basic

/-!
# TOML documents

A TOML text is a sequence of statements: table headers and assignments. `Statement.run` enters one
statement into the tables read so far and refuses what would define a key or a table twice. The
result is a JSON document; a date or time becomes an object of its own.
-/
namespace PipelineResolution.Toml
open Reading Text Text.Parser

/-- How a table came to be. -/
inductive Origin where
  /-- A header of its own, or an array element. -/
  | header
  /-- A header of a table inside it. -/
  | implied
  /-- A dotted key. -/
  | dotted
  deriving DecidableEq

inductive Node where
  | leaf (value : Json)
  | table (origin : Origin) (entries : List (String × Node))
  | tables (before : List (List (String × Node))) (last : List (String × Node))

abbrev Table := Dict Node

namespace Node

/-- Changes the table at the end of a path, making the missing tables on the way. -/
def descend (byKey : Bool) (change : Origin → Table → Option Table) :
    List String → Origin → Table → Option Table
  | [], origin, entries => change origin entries
  | key :: path, _, entries =>
    match Dict.get? entries key with
    | none => do
      let origin := if byKey then .dotted else .implied
      return Dict.insert entries key (.table origin (← descend byKey change path origin []))
    | some (.leaf _) => none
    | some (.tables before last) => do
      return Dict.insert entries key (.tables before (← descend byKey change path .header last))
    | some (.table origin inner) =>
      if byKey && origin == .header then none
      else do
        return Dict.insert entries key (.table origin (← descend byKey change path origin inner))

/-- Assigns to a dotted key: `path` are all its parts but the last. -/
def assign (path : List String) (key : String) (value : Json) (origin : Origin) (entries : Table) :
    Option Table :=
  descend true (fun reached inner =>
      if !path.isEmpty && reached != .dotted then none
      else if Dict.contains inner key then none
      else some (Dict.insert inner key (.leaf value)))
    path origin entries

mutual
def toJson : Node → Json
  | .leaf value => value
  | .table _ entries => .object (entriesToJson entries)
  | .tables before last => .array (tablesToJson before ++ [.object (entriesToJson last)])

def tablesToJson : List (List (String × Node)) → List Json
  | [] => []
  | t :: ts => .object (entriesToJson t) :: tablesToJson ts

def entriesToJson : List (String × Node) → List (String × Json)
  | [] => []
  | (key, node) :: entries => (key, node.toJson) :: entriesToJson entries
end

end Node

inductive Statement where
  | blank
  | header (path : List String) (key : String)
  | element (path : List String) (key : String)
  | assignment (path : List String) (key : String) (value : Json)

/-- The tables read so far and the path of the table that assignments go to. -/
structure State where
  root : Table
  current : List String

def Statement.run (state : State) : Statement → Option State
  | .blank => some state
  | .header path key => do
    let enter (_ : Origin) (entries : Table) : Option Table :=
      match Dict.get? entries key with
      | none => some (Dict.insert entries key (.table .header []))
      | some (.table .implied inner) => some (Dict.insert entries key (.table .header inner))
      | _ => none
    return ⟨← Node.descend false enter path .header state.root, path ++ [key]⟩
  | .element path key => do
    let enter (_ : Origin) (entries : Table) : Option Table :=
      match Dict.get? entries key with
      | none => some (Dict.insert entries key (.tables [] []))
      | some (.tables before last) =>
        some (Dict.insert entries key (.tables (before ++ [last]) []))
      | _ => none
    return ⟨← Node.descend false enter path .header state.root, path ++ [key]⟩
  | .assignment path key value => do
    return { state with
      root := ← Node.descend false (Node.assign path key value) state.current .header state.root }

private def isSpace (c : Char) : Bool := c == ' ' || c == '\t'

private def spaces : Parser Unit := do
  let _ ← span isSpace

private def newline : Parser Unit := text "\n" <|> text "\r\n"

/-- A character that may stand in a comment or a literal string. -/
private def isPrintable (c : Char) : Bool :=
  c == '\t' || (32 ≤ c.toNat && c.toNat != 127)

private def comment : Parser Unit := do
  char '#'
  let _ ← span isPrintable

/-- Blanks, line breaks and comments between the items of an array. -/
private def gap : Parser Unit := do
  let _ ← many ((do let _ ← satisfy isSpace) <|> newline <|> comment)

private def hexValue (c : Char) : Nat := (hexDigit? c).getD 0

private def isHex (c : Char) : Bool := (hexDigit? c).isSome

private def digitsValue (base : Nat) (ds : List Char) : Nat :=
  ds.foldl (fun n c => n * base + hexValue c) 0

private def escape : Parser Char := do
  match ← satisfy fun _ => true with
  | 'b' => return Char.ofNat 8
  | 't' => return '\t'
  | 'n' => return '\n'
  | 'f' => return Char.ofNat 12
  | 'r' => return '\r'
  | '"' => return '"'
  | '\\' => return '\\'
  | 'u' => codePoint 4
  | 'U' => codePoint 8
  | _ => fail

private def basicString : Parser String := do
  char '"'
  let cs ← many ((do char '\\'; escape) <|>
    satisfy fun c => isPrintable c && c != '"' && c != '\\')
  char '"'
  return String.ofList cs

private def literalString : Parser String := do
  char '\''
  let cs ← span fun c => isPrintable c && c != '\''
  char '\''
  return String.ofList cs

/-- The body of a string between triple quotes; at most two quotes stand right before its end. -/
private def longString (quote : Char) (piece : Parser (List Char)) : Parser String := do
  let three := String.ofList [quote, quote, quote]
  text three
  let _ ← optional newline
  let line : Parser (List Char) := do newline; return ['\n']
  let quotes (n : Nat) : Parser (List Char) := do
    let qs := List.replicate n quote
    text (String.ofList qs)
    nextIs (· != some quote)
    return qs
  let body ← many (piece <|> line <|> quotes 2 <|> quotes 1)
  let run ← span (· == quote)
  if 3 ≤ run.length ∧ run.length ≤ 5 then
    return String.ofList (body.flatten ++ run.drop 3)
  else fail

/-- A backslash at the end of a line joins the next line that is not blank. -/
private def lineJoin : Parser (List Char) := do
  spaces
  newline
  let _ ← many ((do let _ ← satisfy isSpace) <|> newline)
  return []

private def longBasicString : Parser String :=
  longString '"'
    ((do char '\\'; lineJoin <|> (do return [← escape]))
      <|> (do return [← satisfy fun c => isPrintable c && c != '"' && c != '\\']))

private def longLiteralString : Parser String :=
  longString '\'' (do return [← satisfy fun c => isPrintable c && c != '\''])

private def bareKey : Parser String := do
  let cs ← span1 fun c => c.isAlphanum || c == '_' || c == '-'
  return String.ofList cs

/-- The greatest depth of nested values, which no key reaches with its parts. -/
def nestingLimit : Nat := 80

/-- A key as its parts before the last and its last part. -/
private def dottedKey : Parser (List String × String) := do
  let part : Parser String := do
    spaces
    let key ← bareKey <|> basicString <|> literalString
    spaces
    return key
  let parts ← sepBy1 part (char '.')
  match parts.getLast? with
  | some key => if parts.length < nestingLimit then return (parts.dropLast, key) else fail
  | none => fail

/-- Digits with single underscores between them. -/
private def digitRun (test : Char → Bool) : Parser (List Char) := do
  let first ← span1 test
  let more ← many (do char '_'; span1 test)
  return first ++ more.flatten

private def sign : Parser Bool :=
  (do char '-'; return true) <|> (do char '+'; return false) <|> pure false

private def decimalDigits : Parser (List Char) := do
  let ds ← digitRun Char.isDigit
  if ds.head? = some '0' ∧ 1 < ds.length then fail else return ds

private def word (n : Int) : Parser Json :=
  if Word.isSigned n then pure (.int n) else fail

private def integer : Parser Json := do
  let based (mark : String) (base : Nat) (test : Char → Bool) : Parser Json := do
    text mark
    word (digitsValue base (← digitRun test))
  let decimal : Parser Json := do
    let negative ← sign
    let n : Int := digitsValue 10 (← decimalDigits)
    word (if negative then -n else n)
  based "0x" 16 isHex <|> based "0o" 8 (fun c => '0' ≤ c && c ≤ '7')
    <|> based "0b" 2 (fun c => c == '0' || c == '1') <|> decimal

/-- A float. A positive number beyond the finite ones is refused, a negative one is infinite. -/
private def float : Parser Json := do
  let negative ← sign
  let special : Parser Json :=
    (do text "inf"; return .float (.infinite negative)) <|> (do text "nan"; return .float .nan)
  let exponent : Parser (List Char) := do
    let _ ← satisfy fun c => c == 'e' || c == 'E'
    let down ← sign
    return ['e', if down then '-' else '+'] ++ (← digitRun Char.isDigit)
  let digits : Parser Json := do
    let ds ← decimalDigits
    let fraction ← optional (do char '.'; digitRun Char.isDigit)
    let power ← optional exponent
    if fraction.isNone && power.isNone then fail
    else
      let start := if negative then ['-'] else []
      let point := (fraction.map ('.' :: ·)).getD []
      match Number.ofText? (start ++ ds ++ point ++ power.getD []) with
      | some x => if x == .infinite false then fail else return .float x
      | none => fail
  special <|> digits

private def fixedDigits (width low high : Nat) : Parser Nat := fun s =>
  let ds := s.take width
  let n := digitsValue 10 ds
  if ds.length = width ∧ ds.all Char.isDigit ∧ low ≤ n ∧ n ≤ high then some (n, s.drop width)
  else none

private def date : Parser Unit := do
  let year ← fixedDigits 4 0 9999
  char '-'
  let month ← fixedDigits 2 1 12
  char '-'
  let _ ← fixedDigits 2 1 (daysInMonth year month)

private def time : Parser Unit := do
  let _ ← fixedDigits 2 0 23
  char ':'
  let _ ← fixedDigits 2 0 59
  char ':'
  let _ ← fixedDigits 2 0 60
  let _ ← optional (do char '.'; span1 Char.isDigit)

private def offset : Parser Unit :=
  (do let _ ← satisfy fun c => c == 'Z' || c == 'z') <|> do
    let _ ← satisfy fun c => c == '+' || c == '-'
    let _ ← fixedDigits 2 0 23
    char ':'
    let _ ← fixedDigits 2 0 59

private def moment : Parser Json := do
  let timeOfDay : Parser Unit := do
    let _ ← satisfy fun c => c == 'T' || c == 't' || c == ' '
    time
    let _ ← optional offset
  (do date; let _ ← optional timeOfDay) <|> time
  return .object [("moment", .null)]

private def boolean : Parser Json :=
  (do text "true"; return .bool true) <|> (do text "false"; return .bool false)

private def array (item : Parser Json) : Parser Json := do
  char '['
  let padded : Parser Json := do
    gap
    let value ← item
    gap
    return value
  let items ← optional (sepBy1 padded (char ','))
  let _ ← optional (if items.isSome then char ',' else fail)
  gap
  char ']'
  return .array (items.getD [])

private def inlineTable (item : Parser Json) : Parser Json := do
  char '\x7b'
  let entry : Parser ((List String × String) × Json) := do
    let key ← dottedKey
    char '='
    spaces
    let value ← item
    spaces
    return (key, value)
  let entries ← optional (sepBy1 entry (char ','))
  spaces
  char '\x7d'
  let start : Table := []
  match (entries.getD []).foldlM (fun t ((path, key), value) =>
      Node.assign path key value .header t) start with
  | some t => return .object (Node.entriesToJson t)
  | none => fail

/-- A value with at most the given depth of arrays and inline tables. -/
private def value : Nat → Parser Json
  | 0 => fail
  | depth + 1 =>
    (do return .string (← longBasicString <|> basicString <|> longLiteralString <|> literalString))
      <|> boolean <|> array (value depth) <|> inlineTable (value depth)
      <|> moment <|> float <|> integer

private def statement : Parser Statement := do
  spaces
  let header : Parser Statement := do
    char '['
    let (path, key) ← dottedKey
    char ']'
    return .header path key
  let element : Parser Statement := do
    text "[["
    let (path, key) ← dottedKey
    text "]]"
    return .element path key
  let assignment : Parser Statement := do
    let (path, key) ← dottedKey
    char '='
    spaces
    return .assignment path key (← value nestingLimit)
  let found ← element <|> header <|> assignment <|> pure .blank
  spaces
  let _ ← optional comment
  return found

def read? (s : String) : Option Json := do
  let text := match s.toList with
    | '\ufeff' :: text => text
    | text => text
  let statements ← (sepBy1 statement newline).whole? text
  let start : State := ⟨[], []⟩
  let state ← statements.foldlM Statement.run start
  return .object (Node.entriesToJson state.root)

end PipelineResolution.Toml
