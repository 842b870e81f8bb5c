import PipelineResolution.Text.Cut

/-!
# Scalars of YAML documents

The texts of plain, quoted and block scalars. In the first two kinds a line break reads as a blank
and every further one as itself; a block scalar keeps its breaks or folds them, by its indicator.
-/
namespace PipelineResolution.Yaml

def isBreak (c : Char) : Bool :=
  c == '\n' || c == '\r' || c == '\u0085' || c == '\u2028' || c == '\u2029'

def isBlank (c : Char) : Bool := c == ' ' || c == '\t'

/-- Whether what follows is a blank, a line break or the end. -/
def endsWord : List Char → Bool
  | [] => true
  | c :: _ => isBlank c || isBreak c

/-- The line break that a text starts with, as it is read, and the rest. -/
def takeBreak? : List Char → Option (Char × List Char)
  | '\r' :: '\n' :: s => some ('\n', s)
  | c :: s =>
    if c == '\u2028' || c == '\u2029' then some (c, s)
    else if isBreak c then some ('\n', s)
    else none
  | [] => none

/-- A place in a document: the rest of the text and its line and column. -/
structure Place where
  rest : List Char
  line : Nat
  column : Nat

namespace Place

/-- The place further on in the line, given the rest there. -/
def moveTo (p : Place) (rest : List Char) : Place :=
  { p with rest, column := p.column + (p.rest.length - rest.length) }

def atMarker (p : Place) : Bool :=
  p.column == 0 && match p.rest with
    | '-' :: '-' :: '-' :: s => endsWord s
    | '.' :: '.' :: '.' :: s => endsWord s
    | _ => false

end Place

/-- What lies between two pieces of a scalar. -/
structure Gap where
  blanks : List Char
  /-- Whether a line has ended in the gap. -/
  broken : Bool
  breaks : List Char

/-- Reads a gap. After a line break no tab may stand left of the column `floor`. -/
def scanGap (floor : Nat) (g : Gap) (line column : Nat) : List Char → Option (Gap × Place)
  | [] => some (g, ⟨[], line, column⟩)
  | '\r' :: '\n' :: s =>
    scanGap floor { g with broken := true, breaks := g.breaks ++ ['\n'] } (line + 1) 0 s
  | c :: s =>
    if isBlank c then
      if !g.broken then scanGap floor { g with blanks := g.blanks ++ [c] } line (column + 1) s
      else if c == '\t' && column < floor then none
      else scanGap floor g line (column + 1) s
    else if isBreak c then
      let read := if c == '\u2028' || c == '\u2029' then c else '\n'
      scanGap floor { g with broken := true, breaks := g.breaks ++ [read] } (line + 1) 0 s
    else some (g, ⟨c :: s, line, column⟩)

/-- A gap as text: blanks within a line, one blank for a single break, else the further breaks. -/
def Gap.fold (g : Gap) : List Char :=
  if !g.broken then g.blanks
  else match g.breaks with
    | ['\n'] => [' ']
    | '\n' :: more => more
    | breaks => breaks

private def isFlowMark (c : Char) : Bool :=
  c == ',' || c == '[' || c == ']' || c == '\x7b' || c == '\x7d'

/-- The longest word of a plain scalar, which ends before an indicator. -/
def plainWord (flow : Bool) : List Char → Option (List Char × List Char)
  | [] => some ([], [])
  | c :: s =>
    if isBlank c || isBreak c then some ([], c :: s)
    else if flow && c == ':' && s.head?.any (fun d => isFlowMark d || d == '?') then none
    else if c == ':' && endsWord s then some ([], c :: s)
    else if flow && isFlowMark c then some ([], c :: s)
    else (plainWord flow s).map fun (word, rest) => (c :: word, rest)

/-- Goes on with a plain scalar after `done` and the gap before the place. The flag of the result
says whether a line has ended since the last word. -/
def plainFrom (flow : Bool) (floor : Nat) (done : List Char) (gap : Gap) (p : Place) :
    Option (List Char × Place × Bool) :=
  if p.atMarker || p.rest.head? == some '#' then some (done, p, gap.broken)
  else
    match plainWord flow p.rest with
    | none => none
    | some ([], _) => some (done, p, gap.broken)
    | some (word, rest) =>
      let read := done ++ gap.fold ++ word
      let q := p.moveTo rest
      match scanGap floor ⟨[], false, []⟩ q.line q.column q.rest with
      | none => none
      | some (gap, next) =>
        if gap.blanks.isEmpty && !gap.broken then some (read, q, false)
        else if !flow && next.column < floor then some (read, next, gap.broken)
        else if next.rest.length < p.rest.length then plainFrom flow floor read gap next
        else none
termination_by p.rest.length

/-- A word between single quotes, where two quotes stand for one. -/
def singleWord : List Char → List Char × List Char
  | [] => ([], [])
  | '\'' :: '\'' :: s =>
    let (word, rest) := singleWord s
    ('\'' :: word, rest)
  | c :: s =>
    if c == '\'' || isBlank c || isBreak c then ([], c :: s)
    else
      let (word, rest) := singleWord s
      (c :: word, rest)

private def character? (digits : List Char) : Option Char := do
  let n := (← digits.mapM Text.hexDigit?).foldl (fun n d => n * 16 + d) 0
  if n.isValidChar then return Char.ofNat n else none

private def shortEscape? : Char → Option Char
  | '0' => some (Char.ofNat 0)
  | 'a' => some (Char.ofNat 7)
  | 'b' => some (Char.ofNat 8)
  | 't' | '\t' => some '\t'
  | 'n' => some '\n'
  | 'v' => some (Char.ofNat 11)
  | 'f' => some (Char.ofNat 12)
  | 'r' => some '\r'
  | 'e' => some (Char.ofNat 27)
  | ' ' => some ' '
  | '"' => some '"'
  | '/' => some '/'
  | '\\' => some '\\'
  | 'N' => some '\u0085'
  | '_' => some '\u00a0'
  | 'L' => some '\u2028'
  | 'P' => some '\u2029'
  | _ => none

/-- A word between double quotes. The flag says that it ends in an escaped line break. -/
def doubleWord : List Char → Option (List Char × List Char × Bool)
  | [] => some ([], [], false)
  | '\\' :: 'x' :: a :: b :: s => escaped (character? [a, b]) (doubleWord s)
  | '\\' :: 'u' :: a :: b :: c :: d :: s => escaped (character? [a, b, c, d]) (doubleWord s)
  | '\\' :: 'U' :: a :: b :: c :: d :: e :: f :: g :: h :: s =>
    escaped (character? [a, b, c, d, e, f, g, h]) (doubleWord s)
  | '\\' :: c :: s =>
    if isBreak c then some ([], c :: s, true) else escaped (shortEscape? c) (doubleWord s)
  | c :: s =>
    if c == '"' || isBlank c || isBreak c then some ([], c :: s, false)
    else if c == '\\' then none
    else escaped (some c) (doubleWord s)
where
  escaped (c : Option Char) (more : Option (List Char × List Char × Bool)) :
      Option (List Char × List Char × Bool) := do
    let c ← c
    let (word, rest, joined) ← more
    return (c :: word, rest, joined)

/-- Goes on with a quoted scalar after `done`, up to its closing quote. -/
def quotedFrom (quote : Char) (done : List Char) (p : Place) : Option (List Char × Place) :=
  if p.atMarker then none
  else
    let found := if quote == '"' then doubleWord p.rest
      else
        let (word, rest) := singleWord p.rest
        some (word, rest, false)
    match found with
    | none => none
    | some (word, rest, joined) =>
      let q := p.moveTo rest
      match rest with
      | [] => none
      | c :: after =>
        if c == quote && !joined then some (done ++ word, q.moveTo after)
        else
          let start : Gap × Place :=
            if joined then
              (⟨[], true, []⟩, ⟨((takeBreak? rest).map (·.2)).getD [], q.line + 1, 0⟩)
            else (⟨[], false, []⟩, q)
          match scanGap 0 start.1 start.2.line start.2.column start.2.rest with
          | none => none
          | some (gap, next) =>
            let between := if joined then gap.breaks else gap.fold
            if next.rest.length < p.rest.length then
              quotedFrom quote (done ++ word ++ between) next
            else none
termination_by p.rest.length

/-- What happens to the line breaks at the end of a block scalar. -/
inductive Chomp where
  | strip | clip | keep

/-- Indentation and empty lines of a block scalar. With `indent` 0 the indentation is not known
yet; the result holds the breaks and the largest column reached. -/
def blockIndent (indent : Nat) (largest line column : Nat) (breaks : List Char) :
    List Char → Option (List Char × Nat × Place)
  | [] => some (breaks, max largest column, ⟨[], line, column⟩)
  | '\r' :: '\n' :: s => blockIndent indent (max largest column) (line + 1) 0 (breaks ++ ['\n']) s
  | c :: s =>
    let inside := indent == 0 || column < indent
    if c == ' ' && inside then blockIndent indent largest line (column + 1) breaks s
    else if c == '\t' && inside then none
    else if isBreak c then
      let read := if c == '\u2028' || c == '\u2029' then c else '\n'
      blockIndent indent (max largest column) (line + 1) 0 (breaks ++ [read]) s
    else some (breaks, max largest column, ⟨c :: s, line, column⟩)

/-- What has been read of a block scalar. -/
structure BlockText where
  text : List Char
  /-- The break that ends the last line. -/
  leading : List Char
  /-- The empty lines after it. -/
  trailing : List Char
  leadingBlank : Bool

def blockLines (literal : Bool) (indent : Nat) (b : BlockText) (p : Place) :
    Option (BlockText × Place) :=
  match p.rest with
  | [] => some (b, p)
  | c :: _ =>
    if p.column != indent then some (b, p)
    else
      let blank := isBlank c
      let joint :=
        if !literal && b.leading == ['\n'] && !b.leadingBlank && !blank then
          if b.trailing.isEmpty then [' '] else []
        else b.leading
      let content := p.rest.takeWhile (!isBreak ·)
      let rest := p.rest.dropWhile (!isBreak ·)
      let text := b.text ++ joint ++ b.trailing ++ content
      match takeBreak? rest with
      | none => some (⟨text, [], [], blank⟩, p.moveTo rest)
      | some (read, rest) =>
        match blockIndent indent 0 (p.line + 1) 0 [] rest with
        | none => none
        | some (trailing, _, next) =>
          if next.rest.length < p.rest.length then
            blockLines literal indent ⟨text, [read], trailing, blank⟩ next
          else none
termination_by p.rest.length

/-- The header of a block scalar behind its indicator: chomping and indentation. -/
def blockHeader (s : List Char) : Option (Chomp × Nat × List Char) :=
  let chomp? : List Char → Option (Chomp × List Char)
    | '+' :: s => some (.keep, s)
    | '-' :: s => some (.strip, s)
    | _ => none
  let digit? : List Char → Option (Nat × List Char)
    | c :: s => if c.isDigit then some (c.toNat - 48, s) else none
    | [] => none
  let found := match chomp? s with
    | some (chomp, s) => (chomp, digit? s, s)
    | none =>
      match digit? s with
      | some (n, rest) =>
        match chomp? rest with
        | some (chomp, rest) => (chomp, some (n, rest), rest)
        | none => (.clip, some (n, rest), rest)
      | none => (.clip, none, s)
  match found with
  | (_, some (0, _), _) => none
  | (chomp, some (n, rest), _) => some (chomp, n, rest)
  | (chomp, none, rest) => some (chomp, 0, rest)

def blockScalar (literal : Bool) (outer : Int) (p : Place) : Option (List Char × Place) := do
  let (chomp, step, rest) ← blockHeader p.rest
  let rest := rest.dropWhile isBlank
  let rest := if rest.head? == some '#' then rest.dropWhile (!isBreak ·) else rest
  let start ← match takeBreak? rest with
    | some (_, rest) => some (⟨rest, p.line + 1, 0⟩ : Place)
    | none => if rest.isEmpty then some (p.moveTo rest) else none
  let fixed := if step == 0 then 0 else if 0 ≤ outer then outer.toNat + step else step
  let (breaks, largest, first) ← blockIndent fixed 0 start.line start.column [] start.rest
  let indent := if fixed == 0 then max (max largest (outer + 1).toNat) 1 else fixed
  let (b, last) ← blockLines literal indent ⟨[], [], breaks, false⟩ first
  let text := match chomp with
    | .strip => b.text
    | .clip => b.text ++ b.leading
    | .keep => b.text ++ b.leading ++ b.trailing
  return (text, last)

end PipelineResolution.Yaml
