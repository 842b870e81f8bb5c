import PipelineResolution.Document.Yaml.Scalar
import PipelineResolution.Text.Parser

/-!
# Tokens of YAML documents

The text of a document as a list of tokens. Indentation becomes tokens too: a mapping or sequence
opens where a key or an entry stands further right than the block around it, and closes where the
text goes back to the left. A key is recognised by the `:` after it, so its token is put in front of
what has already been read.
-/
namespace PipelineResolution.Yaml

inductive Token where
  | version (major minor : Nat)
  | tagHandle (handle full : String)
  | documentStart
  | documentEnd
  | blockSequence
  | blockMapping
  | blockEnd
  | flowSequence
  | flowSequenceEnd
  | flowMapping
  | flowMappingEnd
  /-- The dash of a block sequence. -/
  | entry
  /-- The comma of a flow collection. -/
  | comma
  | key
  | value
  | anchor (name : String)
  | alias (name : String)
  | tag (handle rest : String)
  | scalar (text : String) (plain : Bool)
  deriving DecidableEq

/-- Where a token may turn out to be a key. -/
structure PendingKey where
  position : Nat
  /-- A key must follow in this column of a block mapping. -/
  required : Bool
  line : Nat
  column : Nat
  /-- The bytes of the text from the token on. -/
  remaining : Nat

structure Scanner where
  place : Place
  /-- The column of the innermost block, and of those around it. -/
  indent : Int
  outer : List Int
  /-- The pending keys around the innermost flow collection, one for each level. -/
  flow : List (Option PendingKey)
  pending : Option PendingKey
  /-- Whether a key may start here. -/
  keyAllowed : Bool
  tokens : Array Token

namespace Scanner

def start (s : List Char) : Scanner := ⟨⟨s, 0, 0⟩, -1, [], [], none, true, #[]⟩

def inFlow (s : Scanner) : Bool := !s.flow.isEmpty

def push (s : Scanner) (t : Token) : Scanner := { s with tokens := s.tokens.push t }

/-- Puts a token in front of those read since a position. -/
def insertAt (s : Scanner) (position : Nat) (t : Token) : Scanner :=
  { s with
    tokens := s.tokens.extract 0 position ++ #[t]
      ++ s.tokens.extract position s.tokens.size }

def skip (s : Scanner) (n : Nat) : Scanner :=
  { s with place := { s.place with rest := s.place.rest.drop n, column := s.place.column + n } }

/-- Forgets the pending key, unless it had to become one. -/
def dropKey (s : Scanner) : Option Scanner :=
  match s.pending with
  | some k => if k.required then none else some { s with pending := none }
  | none => some s

private def byteCount (s : List Char) : Nat := s.foldl (fun n c => n + c.utf8Size) 0

/-- The most bytes between the start of a key and its colon. -/
def keyLimit : Nat := 1024

/-- Remembers that the next token may be a key. -/
def saveKey (s : Scanner) : Option Scanner :=
  if !s.keyAllowed then some s
  else do
    let s ← s.dropKey
    let required := !s.inFlow && s.indent == s.place.column
    return { s with
      pending := some ⟨s.tokens.size, required, s.place.line, s.place.column,
        byteCount s.place.rest⟩ }

/-- Forgets a pending key that ends on another line or lies too far back. -/
def checkKey (s : Scanner) : Option Scanner :=
  match s.pending with
  | some k =>
    if k.line < s.place.line || byteCount s.place.rest + keyLimit < k.remaining then s.dropKey
    else some s
  | none => some s

/-- Opens a block at a column further right than the innermost one; its token goes in front of the
tokens read since `position`. -/
def openBlock (s : Scanner) (column position : Nat) (t : Token) : Scanner :=
  if s.inFlow || column ≤ s.indent then s
  else { (s.insertAt position t) with indent := column, outer := s.indent :: s.outer }

/-- Closes the blocks that lie right of a column. -/
def closeBlocks (column : Int) (indent : Int) (tokens : Array Token) :
    List Int → Int × List Int × Array Token
  | [] => (indent, [], tokens)
  | o :: outer =>
    if column < indent then closeBlocks column o (tokens.push .blockEnd) outer
    else (indent, o :: outer, tokens)

def unroll (s : Scanner) (column : Int) : Scanner :=
  if s.inFlow then s
  else
    let (indent, outer, tokens) := closeBlocks column s.indent s.tokens s.outer
    { s with indent, outer, tokens }

/-- Blanks, comments and line breaks before a token. A tab is no blank where a key may start. -/
def skipBlanks (flow : Bool) (keyAllowed : Bool) (line column : Nat) :
    List Char → Bool × Place
  | [] => (keyAllowed, ⟨[], line, column⟩)
  | '\r' :: '\n' :: s => skipBlanks flow (keyAllowed || !flow) (line + 1) 0 s
  | c :: s =>
    if c == ' ' || (c == '\t' && (flow || !keyAllowed)) || (c == '\ufeff' && column == 0) then
      skipBlanks flow keyAllowed line (column + 1) s
    else if isBreak c then skipBlanks flow (keyAllowed || !flow) (line + 1) 0 s
    else (keyAllowed, ⟨c :: s, line, column⟩)

def toToken (s : Scanner) : Scanner :=
  let (keyAllowed, place) :=
    skipBlanks s.inFlow s.keyAllowed s.place.line s.place.column s.place.rest
  let next := { s with keyAllowed, place }
  if place.rest.head? == some '#' then
    let after := place.rest.dropWhile (!isBreak ·)
    if after.length < s.place.rest.length then
      toToken { next with place := place.moveTo after }
    else next
  else next
termination_by s.place.rest.length

def marker (s : Scanner) (t : Token) : Option Scanner := do
  let s ← (s.unroll (-1)).dropKey
  return ({ s with keyAllowed := false }.push t).skip 3

private def digits (s : List Char) : Nat :=
  s.foldl (fun n c => n * 10 + (c.toNat - 48)) 0

private def isWordChar (c : Char) : Bool := c.isAlphanum || c == '-' || c == '_'

private def isUriChar (verbatim : Bool) (c : Char) : Bool :=
  isWordChar c || c == ';' || c == '/' || c == '?' || c == ':' || c == '@' || c == '&' || c == '='
    || c == '+' || c == '$' || c == '.' || c == '!' || c == '~' || c == '*' || c == '\'' || c == '('
    || c == ')' || c == '%' || (verbatim && (c == ',' || c == '[' || c == ']'))

/-- The byte that `%` and two digits stand for. -/
private def uriByte : Text.Parser Nat := do
  Text.Parser.char '%'
  Text.Parser.hexNumber 2

/-- The character that the bytes of its UTF-8 form stand for. -/
private def uriEscape : Text.Parser Char := do
  let first ← uriByte
  let (start, width) ←
    if first < 0x80 then pure (first, 1)
    else if 0xc0 ≤ first && first < 0xe0 then pure (first - 0xc0, 2)
    else if 0xe0 ≤ first && first < 0xf0 then pure (first - 0xe0, 3)
    else if 0xf0 ≤ first && first < 0xf8 then pure (first - 0xf0, 4)
    else Reading.fail
  let n ← (List.range (width - 1)).foldlM (fun n _ => do
    let byte ← uriByte
    if 0x80 ≤ byte && byte < 0xc0 then return n * 64 + (byte - 0x80) else Reading.fail) start
  if n.isValidChar && (Char.ofNat n).utf8Size == width then return Char.ofNat n else Reading.fail

/-- A part of a tag without its escapes. -/
private def unescapeUri (s : List Char) : Option String :=
  (Reading.whole? (Reading.many (uriEscape <|> Reading.satisfy (· != '%'))) s).map String.ofList

/-- A version as two numbers of at most nine digits. -/
private def version : Text.Parser Token := do
  let number : Text.Parser Nat := do
    let ds ← Reading.span1 Char.isDigit
    if ds.length ≤ 9 then return digits ds else Reading.fail
  let major ← number
  Text.Parser.char '.'
  return .version major (← number)

private def tagHandle : Text.Parser Token := do
  let handle ← Reading.span1 fun c => c == '!' || isWordChar c
  let _ ← Reading.span1 isBlank
  let full ← Reading.span1 (isUriChar true)
  Reading.nextIs fun c => c.all isBlank
  match unescapeUri full with
  | some full =>
    if handle.head? == some '!' && handle.getLast? == some '!'
        && (handle.drop 1).dropLast.all isWordChar then
      return .tagHandle (String.ofList handle) full
    else Reading.fail
  | none => Reading.fail

/-- A line `%YAML <major>.<minor>` or `%TAG <handle> <full>`, with a comment after it. -/
private def directiveLine : Text.Parser Token := do
  let named (name : String) (content : Text.Parser Token) : Text.Parser Token := do
    Text.Parser.text name
    let _ ← Reading.span1 isBlank
    content
  let token ← named "%YAML" version <|> named "%TAG" tagHandle
  let _ ← Reading.span isBlank
  let _ ← Reading.optional (do
    Text.Parser.char '#'
    Reading.span fun _ => true)
  return token

def directive (s : Scanner) : Option Scanner := do
  let s ← (s.unroll (-1)).dropKey
  let line := s.place.rest.takeWhile (!isBreak ·)
  let rest := s.place.rest.dropWhile (!isBreak ·)
  let token ← directiveLine.whole? line
  return { (s.push token) with keyAllowed := false, place := s.place.moveTo rest }

def openFlow (s : Scanner) (t : Token) : Option Scanner := do
  let s ← s.saveKey
  return ({ s with flow := s.pending :: s.flow, pending := none, keyAllowed := true }.push t).skip 1

def closeFlow (s : Scanner) (t : Token) : Option Scanner := do
  let s ← s.dropKey
  let s := match s.flow with
    | k :: flow => { s with pending := k, flow }
    | [] => s
  return ({ s with keyAllowed := false }.push t).skip 1

def comma (s : Scanner) : Option Scanner := do
  let s ← s.dropKey
  return ({ s with keyAllowed := true }.push .comma).skip 1

/-- The dash of a block sequence or the question mark of a key. -/
def indicator (s : Scanner) (opening t : Token) (keyAllowed : Bool) : Option Scanner := do
  if !s.inFlow && !s.keyAllowed then none
  let s := s.openBlock s.place.column s.tokens.size opening
  let s ← s.dropKey
  return ({ s with keyAllowed }.push t).skip 1

/-- The colon of a value: the pending token becomes a key. -/
def value (s : Scanner) : Option Scanner := do
  match s.pending with
  | some k =>
    let s := { (s.insertAt k.position .key) with pending := none, keyAllowed := false }
    return ((s.openBlock k.column k.position .blockMapping).push .value).skip 1
  | none =>
    if !s.inFlow && !s.keyAllowed then none
    let s := s.openBlock s.place.column s.tokens.size .blockMapping
    return ({ s with keyAllowed := !s.inFlow }.push .value).skip 1

def named (s : Scanner) (token : String → Token) : Option Scanner := do
  let s ← s.saveKey
  let rest := s.place.rest.drop 1
  let name := rest.takeWhile isWordChar
  let after := rest.dropWhile isWordChar
  let ends := endsWord after || after.head?.any fun c =>
    c == '?' || c == ':' || c == ',' || c == ']' || c == '\x7d' || c == '%' || c == '@' || c == '`'
  if name.isEmpty || !ends then none
  return ({ s with keyAllowed := false }.push (token (String.ofList name))).skip (name.length + 1)

/-- A tag as its handle, the rest and what follows: `!<full>`, `!handle!rest` or `!rest`. -/
def tagText (s : List Char) : Option (String × List Char × List Char) :=
  match s with
  | '!' :: '<' :: s =>
    let full := s.takeWhile (isUriChar true)
    match s.dropWhile (isUriChar true) with
    | '>' :: rest => if full.isEmpty then none else some ("", full, rest)
    | _ => none
  | '!' :: s =>
    let word := s.takeWhile isWordChar
    match s.dropWhile isWordChar with
    | '!' :: after =>
      let suffix := after.takeWhile (isUriChar false)
      if suffix.isEmpty then none
      else some (String.ofList ('!' :: word ++ ['!']), suffix, after.dropWhile (isUriChar false))
    | _ =>
      let suffix := s.takeWhile (isUriChar false)
      let rest := s.dropWhile (isUriChar false)
      if suffix.isEmpty then some ("", ['!'], rest) else some ("!", suffix, rest)
  | _ => none

def tag (s : Scanner) : Option Scanner := do
  let s ← s.saveKey
  let (handle, suffix, rest) ← tagText s.place.rest
  if !(endsWord rest || (s.inFlow && rest.head? == some ',')) then none
  let suffix ← unescapeUri suffix
  return { (s.push (.tag handle suffix)) with keyAllowed := false, place := s.place.moveTo rest }

def blockScalar (s : Scanner) (literal : Bool) : Option Scanner := do
  let s ← s.dropKey
  let (text, place) ← Yaml.blockScalar literal s.indent (s.skip 1).place
  return { (s.push (.scalar (String.ofList text) false)) with keyAllowed := true, place }

def quotedScalar (s : Scanner) (quote : Char) : Option Scanner := do
  let s ← s.saveKey
  let (text, place) ← quotedFrom quote [] (s.skip 1).place
  return { (s.push (.scalar (String.ofList text) false)) with keyAllowed := false, place }

def plainScalar (s : Scanner) : Option Scanner := do
  let s ← s.saveKey
  let (text, place, broken) ←
    plainFrom s.inFlow (s.indent + 1).toNat [] ⟨[], false, []⟩ s.place
  return { (s.push (.scalar (String.ofList text) true)) with keyAllowed := broken, place }

/-- Whether a plain scalar may start with a character and what follows it. -/
def startsPlain (flow : Bool) (c : Char) (rest : List Char) : Bool :=
  let special := c == '-' || c == '?' || c == ':' || c == ',' || c == '[' || c == ']' || c == '\x7b'
    || c == '\x7d' || c == '#' || c == '&' || c == '*' || c == '!' || c == '|' || c == '>'
    || c == '\'' || c == '"' || c == '%' || c == '@' || c == '`' || isBlank c || isBreak c
  !special || (c == '-' && !rest.head?.any isBlank)
    || (!flow && (c == '?' || c == ':') && !endsWord rest)

/-- Reads the token that stands at the scanner's place. -/
def token (s : Scanner) (c : Char) (rest : List Char) : Option Scanner :=
  if s.place.column == 0 && c == '%' then s.directive
  else if s.place.atMarker then s.marker (if c == '-' then .documentStart else .documentEnd)
  else if c == '[' then s.openFlow .flowSequence
  else if c == '\x7b' then s.openFlow .flowMapping
  else if c == ']' then s.closeFlow .flowSequenceEnd
  else if c == '\x7d' then s.closeFlow .flowMappingEnd
  else if c == ',' then s.comma
  else if c == '-' && endsWord rest then s.indicator .blockSequence .entry true
  else if c == '?' && (s.inFlow || endsWord rest) then s.indicator .blockMapping .key (!s.inFlow)
  else if c == ':' && (s.inFlow || endsWord rest) then s.value
  else if c == '*' then s.named .alias
  else if c == '&' then s.named .anchor
  else if c == '!' then s.tag
  else if c == '|' && !s.inFlow then s.blockScalar true
  else if c == '>' && !s.inFlow then s.blockScalar false
  else if c == '\'' || c == '"' then s.quotedScalar c
  else if startsPlain s.inFlow c rest then s.plainScalar
  else none

def run (s : Scanner) : Option (Array Token) := do
  let t ← s.toToken.checkKey
  match t.place.rest with
  | [] =>
    let t ← (t.unroll (-1)).dropKey
    return t.tokens
  | c :: rest =>
    let next ← (t.unroll t.place.column).token c rest
    if next.place.rest.length < s.place.rest.length then run next else none
termination_by s.place.rest.length

end Scanner

def isPrintable (c : Char) : Bool :=
  let n := c.toNat
  n == 9 || n == 10 || n == 13 || (0x20 ≤ n && n ≤ 0x7e) || n == 0x85
    || (0xa0 ≤ n && n ≤ 0xd7ff) || (0xe000 ≤ n && n ≤ 0xfffd) || 0x10000 ≤ n

def tokens? (s : String) : Option (List Token) :=
  let text := s.toList
  if text.all isPrintable then (Scanner.start text).run.map Array.toList else none

end PipelineResolution.Yaml
