import PipelineResolution.Text.Cut

/-!
# Markers in templates

`$` and `%` open a part of a template when a brace follows. In literal text such a marker is written
with its sign twice. A marker may take the blanks around it, up to one line break on each side.
-/
namespace PipelineResolution.Text

/-- A character that opens a part when a brace follows. -/
def isMarkerSign (c : Char) : Bool := c == '$' || c == '%'

/-- Whether a text holds a marker. A sign that is written twice opens none. -/
def hasMarker : List Char → Bool
  | c :: d :: s =>
    if isMarkerSign c && d == '\x7b' then true
    else if isMarkerSign c && d == c then hasMarker s
    else hasMarker (d :: s)
  | _ => false

/-- The text with the signs of its markers written twice. The character after a sign belongs to no
other marker. -/
def doubleMarkers : List Char → List Char
  | c :: d :: s =>
    if isMarkerSign c then
      if d == '\x7b' then c :: c :: d :: doubleMarkers s else c :: d :: doubleMarkers s
    else c :: doubleMarkers (d :: s)
  | s => s

/-- Literal text as a template spells it: signs are looked for from the first marker on. -/
def escapeMarkers : List Char → List Char
  | c :: d :: s =>
    if isMarkerSign c && d == '\x7b' then doubleMarkers (c :: d :: s)
    else c :: escapeMarkers (d :: s)
  | s => s

private def isLineBlank (c : Char) : Bool := isBlank c && c != '\n'

/-- The text without the blanks at its start, up to the first line break and with it. -/
def stripStart (s : List Char) : List Char :=
  match s.dropWhile isLineBlank with
  | '\n' :: rest => rest
  | rest => rest

/-- The text without the blanks at its end, back to the last line break and with it. -/
def stripEnd (s : List Char) : List Char :=
  match s.reverse.dropWhile isLineBlank with
  | '\n' :: '\r' :: rest => rest.reverse
  | '\n' :: rest => rest.reverse
  | rest => rest.reverse

end PipelineResolution.Text
