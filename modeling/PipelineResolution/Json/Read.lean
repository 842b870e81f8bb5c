import PipelineResolution.Json.Basic
import PipelineResolution.Text.Parser

/-!
# Reading JSON text

The text of a document as RFC 8259 has it. A number without a fraction and an exponent is an integer
when it fits a signed or unsigned 64-bit word; every other number, minus zero among them, is a finite
binary64 number.
-/
namespace PipelineResolution.Json
open Reading Text Text.Parser

private def gaps : Parser Unit := do
  let _ ← span fun c => c == ' ' || c == '\t' || c == '\n' || c == '\r'

/-- The character of one escape, or of the two that make a surrogate pair. -/
private def unicodeEscape : Parser Char := do
  let high ← hexNumber 4
  if 0xd800 ≤ high ∧ high < 0xdc00 then
    text "\\u"
    let low ← hexNumber 4
    if 0xdc00 ≤ low ∧ low < 0xe000 then
      return Char.ofNat (0x10000 + (high - 0xd800) * 0x400 + (low - 0xdc00))
    else fail
  else if high.isValidChar then return Char.ofNat high
  else fail

private def escaped : Parser Char := do
  char '\\'
  match ← satisfy fun _ => true with
  | '"' => return '"'
  | '\\' => return '\\'
  | '/' => return '/'
  | 'b' => return Char.ofNat 8
  | 'f' => return Char.ofNat 12
  | 'n' => return '\n'
  | 'r' => return '\r'
  | 't' => return '\t'
  | 'u' => unicodeEscape
  | _ => fail

private def stringText : Parser String := do
  char '"'
  let runs ← many (span1 (fun c => c != '"' && c != '\\' && 32 ≤ c.toNat)
    <|> (do return [← escaped]))
  char '"'
  return String.ofList runs.flatten

private def numberText : Parser Json := do
  let minus ← optional (char '-')
  let whole ← span1 Char.isDigit
  if whole.head? == some '0' && 1 < whole.length then fail
  let fraction ← optional (do char '.'; span1 Char.isDigit)
  let power ← optional (do
    let _ ← satisfy fun c => c == 'e' || c == 'E'
    let sign ← optional (satisfy fun c => c == '+' || c == '-')
    return 'e' :: sign.toList ++ (← span1 Char.isDigit))
  let n : Int := (digitsToNat? whole).getD 0
  let n := if minus.isSome then -n else n
  let isWord := fraction.isNone && power.isNone && (Word.isSigned n || Word.isUnsigned n)
    && (n != 0 || minus.isNone)
  if isWord then return .int n
  let point := (fraction.map ('.' :: ·)).getD []
  match Number.ofText? ((minus.map fun _ => '-').toList ++ whole ++ point ++ power.getD []) with
  | some x => if x.isFinite then return .float x else fail
  | none => fail

/-- A document with less than the given depth of arrays and objects. -/
private def document : Nat → Parser Json
  | 0 => fail
  | depth + 1 => do
    gaps
    let inner := document depth
    let array : Parser Json := do
      if depth == 0 then fail
      char '['
      let items ← (do
        let items ← sepBy1 inner (char ',')
        gaps
        return items) <|> (do gaps; return [])
      char ']'
      return .array items
    let entry : Parser (String × Json) := do
      gaps
      let key ← stringText
      gaps
      char ':'
      return (key, ← inner)
    let object : Parser Json := do
      if depth == 0 then fail
      char '\x7b'
      let fields ← sepBy1 entry (char ',') <|> (do gaps; return [])
      char '\x7d'
      return ofFields fields
    let found ← (do text "null"; return .null) <|> (do text "true"; return .bool true)
      <|> (do text "false"; return .bool false) <|> (do return .string (← stringText))
      <|> array <|> object <|> numberText
    gaps
    return found

def nestingLimit : Nat := 128

def read? (s : String) : Option Json := (document nestingLimit).whole? s.toList

end PipelineResolution.Json
