import PipelineResolution.Expression.Numeral

/-!
# Terms of the expression language

A term is what stands between `${` and `}`. Its binary operators are grouped by `Term.attach`: an
operator with a smaller precedence holds the larger operand, and of two equal ones the left holds
the right. A quoted template is the text it is spelled with; its parts are what that text reads as.
-/
namespace PipelineResolution

inductive UnaryOp where
  | negate | not
  deriving DecidableEq

inductive BinaryOp where
  | mul | div | rem | add | sub | le | ge | lt | gt | eq | ne | and | or
  deriving DecidableEq

def UnaryOp.symbol : UnaryOp → String
  | .negate => "-"
  | .not => "!"

namespace BinaryOp

/-- The operators in the order in which they are tried at a place of a text. -/
def all : List BinaryOp := [.eq, .ne, .le, .ge, .lt, .gt, .add, .sub, .mul, .div, .rem, .and, .or]

def symbol : BinaryOp → String
  | .mul => "*" | .div => "/" | .rem => "%" | .add => "+" | .sub => "-"
  | .le => "<=" | .ge => ">=" | .lt => "<" | .gt => ">"
  | .eq => "==" | .ne => "!=" | .and => "&&" | .or => "||"

def precedence : BinaryOp → Nat
  | .mul | .div | .rem => 6
  | .add | .sub => 5
  | .le | .ge | .lt | .gt => 4
  | .eq | .ne => 3
  | .and => 2
  | .or => 1

end BinaryOp

/-- The variables that a loop binds: the element, and its key where a name is given. -/
structure LoopNames where
  key : Option String
  value : String
  deriving DecidableEq

def LoopNames.binds (names : LoopNames) (name : String) : Bool :=
  names.value == name || names.key == some name

/-- Whether a marker takes the blanks from the text on its left and on its right. -/
structure Strip where
  left : Bool
  right : Bool
  deriving DecidableEq

mutual
inductive Term where
  | null
  | bool (b : Bool)
  | number (n : Numeral)
  | string (s : String)
  | variable (name : String)
  | array (items : List Term)
  | object (entries : List (Key × Term))
  /-- A quoted text with interpolations or directives. -/
  | template (text : String) (parts : List Part)
  /-- A quoted text that is no template as it is spelled. -/
  | malformed (text : String)
  /-- With `spread` the last argument stands for its elements. -/
  | call (name : String) (arguments : List Term) (spread : Bool)
  | paren (inner : Term)
  | conditional (test yes no : Term)
  | unary (op : UnaryOp) (operand : Term)
  | binary (op : BinaryOp) (left right : Term)
  | access (base : Term) (accessors : List Accessor)
  /-- The list of `body` for the elements of `source` that pass all `tests`. -/
  | listFor (names : LoopNames) (source body : Term) (tests : List Term)
  /-- The object of `key` and `body`; with `grouped` every key holds a list. -/
  | objectFor (names : LoopNames) (source key body : Term) (grouped : Bool) (tests : List Term)

inductive Key where
  | name (s : String)
  | computed (term : Term)

/-- A part of a template. The body of a directive has a `Strip` of its own, of which `left` is for
its start and `right` for its end. -/
inductive Part where
  | text (s : String)
  | interpolation (strip : Strip) (term : Term)
  | branch (strip : Strip) (test : Term) (inYes : Strip) (yes : List Part) (inNo : Strip)
      (no : List Part)
  | loop (strip : Strip) (names : LoopNames) (source : Term) (inBody : Strip) (body : List Part)

/-- One step from a value to a value inside it. -/
inductive Accessor where
  | member (name : String)
  | position (n : Nat)
  | index (key : Term)
  /-- The attributes of every element. -/
  | eachMember (names : List String)
  /-- All further accessors on every element. -/
  | each
end

instance : Inhabited Term := ⟨.null⟩

namespace Term

/-- The term `left op right`, where the operators of `right` that bind less tightly than `op` keep
hold of what is built. -/
def attach (left : Term) (op : BinaryOp) : Term → Term
  | .binary other l r =>
    if other.precedence < op.precedence then .binary other (attach left op l) r
    else .binary op left (.binary other l r)
  | right => .binary op left right

end Term

/-- The blanks that a part takes from its neighbours. -/
def Part.strip : Part → Strip
  | .text _ => ⟨false, false⟩
  | .interpolation strip _ => strip
  | .branch strip .. => strip
  | .loop strip .. => strip

mutual
/-- Equality of terms as trees, of numbers as numbers and of quoted templates as texts. -/
def Term.equals : Term → Term → Bool
  | .null, .null => true
  | .bool a, .bool b => a == b
  | .number a, .number b => a.equals b
  | .string a, .string b => a == b
  | .variable a, .variable b => a == b
  | .array as, .array bs => Term.listEquals as bs
  | .object as, .object bs => Term.entriesEqual as bs
  | .template a _, .template b _ => a == b
  | .malformed a, .malformed b => a == b
  | .call f as s, .call g bs t => f == g && s == t && Term.listEquals as bs
  | .paren a, .paren b => a.equals b
  | .conditional a b c, .conditional d e f => a.equals d && b.equals e && c.equals f
  | .unary o a, .unary p b => o == p && a.equals b
  | .binary o a b, .binary p c d => o == p && a.equals c && b.equals d
  | .access a as, .access b bs => a.equals b && Accessor.listEquals as bs
  | .listFor m a b s, .listFor n c d t =>
    m == n && a.equals c && b.equals d && Term.listEquals s t
  | .objectFor m a b c g s, .objectFor n d e f h t =>
    m == n && a.equals d && b.equals e && c.equals f && g == h && Term.listEquals s t
  | _, _ => false

def Term.listEquals : List Term → List Term → Bool
  | [], [] => true
  | a :: as, b :: bs => a.equals b && Term.listEquals as bs
  | _, _ => false

def Key.equals : Key → Key → Bool
  | .name a, .name b => a == b
  | .computed a, .computed b => a.equals b
  | _, _ => false

def Term.entriesEqual : List (Key × Term) → List (Key × Term) → Bool
  | [], [] => true
  | (k, a) :: as, (l, b) :: bs => k.equals l && a.equals b && Term.entriesEqual as bs
  | _, _ => false

def Part.equals : Part → Part → Bool
  | .text a, .text b => a == b
  | .interpolation s a, .interpolation t b => s == t && a.equals b
  | .branch s a i ys j ns, .branch t b k zs l ms =>
    s == t && a.equals b && i == k && Part.listEquals ys zs && j == l && Part.listEquals ns ms
  | .loop s m a i ps, .loop t n b j qs =>
    s == t && m == n && a.equals b && i == j && Part.listEquals ps qs
  | _, _ => false

def Part.listEquals : List Part → List Part → Bool
  | [], [] => true
  | a :: as, b :: bs => a.equals b && Part.listEquals as bs
  | _, _ => false

def Accessor.equals : Accessor → Accessor → Bool
  | .member a, .member b => a == b
  | .position m, .position n => m == n
  | .index a, .index b => a.equals b
  | .eachMember a, .eachMember b => a == b
  | .each, .each => true
  | _, _ => false

def Accessor.listEquals : List Accessor → List Accessor → Bool
  | [], [] => true
  | a :: as, b :: bs => a.equals b && Accessor.listEquals as bs
  | _, _ => false
end

instance : BEq Term := ⟨Term.equals⟩
instance : BEq Key := ⟨Key.equals⟩
instance : BEq Part := ⟨Part.equals⟩
instance : BEq Accessor := ⟨Accessor.equals⟩

/-- The entries with one more; an entry with an equal key is replaced where it stands. -/
def Term.putEntry (entries : List (Key × Term)) (key : Key) (value : Term) : List (Key × Term) :=
  if entries.any (·.1 == key) then
    entries.map fun entry => if entry.1 == key then (entry.1, value) else entry
  else entries ++ [(key, value)]

end PipelineResolution
