import PipelineResolution.Diagnostic.Basic
import PipelineResolution.Execution.Environment
import PipelineResolution.Expression.Basic

/-!
# Evaluation

A term is evaluated in a scope and stops at its first error. An expression first reports all its
roots that the environment does not bind, in whatever branch they stand; only when there are none is
it evaluated. Literal text loses the blanks that the markers beside it take.
-/
namespace PipelineResolution

/-- What stops the evaluation of a term. -/
inductive EvalError where
  | unknownVariable (name : String)
  | noSuchKey (key : String)
  | outOfBounds (position : Nat)
  | unaryOperand (op : UnaryOp) (operand : Datum)
  | binaryOperand (op : BinaryOp) (left right : Datum)
  | unexpected (found : Datum) (expected : String)
  | unknownFunction (name : String)
  | duplicateKey (key : String)
  | malformed

/-- The report on an error. The message may say more than what the error is: where it happened, or all
about a text that cannot be read. -/
def EvalError.toDiagnostic (err : EvalError) (more : String) : Diagnostic :=
  match err with
  | .unknownVariable name => .unknownVariable name
  | .noSuchKey key => .error "Unsupported attribute" ("no such key: `" ++ key ++ "`" ++ more)
  | .outOfBounds n => .error "Invalid index" ("index out of bounds: " ++ toString n ++ more)
  | .unaryOperand op d =>
    .error "Invalid operand"
      ("unary operator `" ++ op.symbol ++ "` is not applicable to `" ++ d.display ++ "`" ++ more)
  | .binaryOperand op l r =>
    .error "Invalid operand"
      ("binary operator `" ++ op.symbol ++ "` is not applicable to `" ++ l.display ++ "` and `"
        ++ r.display ++ "`" ++ more)
  | .unexpected d expected =>
    .error "Incorrect value type"
      ("unexpected value `" ++ d.display ++ "`, expected " ++ expected ++ more)
  | .unknownFunction name =>
    .error "Call to unknown function" ("undefined function `" ++ name ++ "`" ++ more)
  | .duplicateKey key =>
    .error "Invalid expression" ("key `" ++ key ++ "` already exists" ++ more)
  | .malformed => .error "Invalid expression" more

/-- What the messages say beyond the error that stops the evaluation of a text or term. -/
structure Wording where
  more : Expression → Environment → EvalError → String

/-- Messages that say as little as they can. -/
def Wording.brief : Wording where
  more _ _
    | .malformed => ExpressionError.malformed.message
    | _ => ""

/-- The names a term can see: those of the loops around it, innermost first, over an environment. -/
structure Scope where
  locals : List (String × Datum)
  environment : Environment

namespace Scope

def get? (s : Scope) (name : String) : Option Datum :=
  Datum.lookup s.locals name <|> (s.environment.find? name).map Datum.ofValue

/-- The scope of one round of a loop. -/
def enter (s : Scope) (names : LoopNames) (item : Datum × Datum) : Scope :=
  { s with
    locals := (names.value, item.2) :: ((names.key.map (·, item.1)).toList ++ s.locals) }

end Scope

namespace Datum

def truth : Datum → Except EvalError Bool
  | .bool b => .ok b
  | d => .error (.unexpected d "a boolean")

def key : Datum → Except EvalError String
  | .string s => .ok s
  | .bool b => .ok (if b then "true" else "false")
  | .number n => .ok n.display
  | d => .error (.unexpected d "a string, boolean or number")

def rounds : Datum → Except EvalError (List (Datum × Datum))
  | .list items => .ok (items.mapIdx fun i d => (.number (.unsigned i), d))
  | .object entries => .ok (entries.map fun (k, d) => (.string k, d))
  | d => .error (.unexpected d "an array or object")

/-- The data that a splat ranges over. -/
def spread : Datum → List Datum
  | .list items => items
  | .null => []
  | d => [d]

def member (d : Datum) (name : String) : Except EvalError Datum :=
  match d with
  | .object entries =>
    match lookup entries name with
    | some d => .ok d
    | none => .error (.noSuchKey name)
  | d => .error (.unexpected d "an object")

def members (d : Datum) : List String → Except EvalError Datum
  | [] => .ok d
  | name :: names => do (← d.member name).members names

def position (d : Datum) (n : Nat) : Except EvalError Datum :=
  match d with
  | .list items =>
    match items[n]? with
    | some d => .ok d
    | none => .error (.outOfBounds n)
  | d => .error (.unexpected d "an array")

def index (d : Datum) : Datum → Except EvalError Datum
  | .string name => d.member name
  | .number n =>
    match n.index? with
    | some i => d.position i
    | none => .error (.unexpected (.number n) "an unsigned integer")
  | key => .error (.unexpected key "an unsigned integer or string")

end Datum

def UnaryOp.apply (op : UnaryOp) (d : Datum) : Except EvalError Datum :=
  match op, d with
  | .not, .bool b => .ok (.bool !b)
  | .negate, .number n => .ok (.number n.neg)
  | op, d => .error (.unaryOperand op d)

def BinaryOp.apply (op : BinaryOp) (l r : Datum) : Except EvalError Datum :=
  match op, l, r with
  | .eq, l, r => .ok (.bool (l.equals r))
  | .ne, l, r => .ok (.bool !(l.equals r))
  | .and, .bool a, .bool b => .ok (.bool (a && b))
  | .or, .bool a, .bool b => .ok (.bool (a || b))
  | .lt, .number a, .number b => .ok (.bool (a.lt b))
  | .le, .number a, .number b => .ok (.bool (a.le b))
  | .gt, .number a, .number b => .ok (.bool (b.lt a))
  | .ge, .number a, .number b => .ok (.bool (b.le a))
  | .add, .number a, .number b => .ok (.number (a.add b))
  | .sub, .number a, .number b => .ok (.number (a.sub b))
  | .mul, .number a, .number b => .ok (.number (a.mul b))
  | .div, .number a, .number b => .ok (.number (a.div b))
  | .rem, .number a, .number b => .ok (.number (a.rem b))
  | op, l, r => .error (.binaryOperand op l r)

namespace Datum

/-- The object with one more element in the list under a key. -/
def group (entries : List (String × Datum)) (key : String) (d : Datum) :
    List (String × Datum) :=
  match lookup entries key with
  | some (.list items) => put entries key (.list (items ++ [d]))
  | _ => put entries key (.list [d])

def extend (entries : List (String × Datum)) (key : String) (d : Datum) :
    Except EvalError (List (String × Datum)) :=
  if (lookup entries key).isSome then .error (.duplicateKey key)
  else .ok (put entries key d)

end Datum

mutual
def Term.eval (s : Scope) : Term → Except EvalError Datum
  | .null => .ok .null
  | .bool b => .ok (.bool b)
  | .number n => .ok (.number n)
  | .string t => .ok (.string t)
  | .variable name =>
    match s.get? name with
    | some d => .ok d
    | none => .error (.unknownVariable name)
  | .array items => do return .list (← Term.evalList s items)
  | .object entries => do return .object (← Term.evalEntries s [] entries)
  | .template _ [.interpolation _ t] => t.eval s
  | .template _ parts => do return .string (← Part.evalList s ⟨false, false⟩ parts)
  | .malformed _ => .error .malformed
  | .call name _ _ => .error (.unknownFunction name)
  | .paren inner => inner.eval s
  | .conditional test yes no => do
    if ← (← test.eval s).truth then yes.eval s else no.eval s
  | .unary op operand => do op.apply (← operand.eval s)
  | .binary op left right => do
    let l ← left.eval s
    let r ← right.eval s
    op.apply l r
  | .access base accessors => do Accessor.evalList s (← base.eval s) accessors
  | .listFor names source body tests => do
    let rounds ← (← source.eval s).rounds
    let items ← rounds.mapM fun item => do
      let inner := s.enter names item
      if ← Term.allTrue inner tests then return some (← body.eval inner) else return none
    return .list (items.filterMap id)
  | .objectFor names source key body grouped tests => do
    let rounds ← (← source.eval s).rounds
    let entries ← rounds.foldlM (fun entries item => do
      let inner := s.enter names item
      if ← Term.allTrue inner tests then
        let k ← (← key.eval inner).key
        let d ← body.eval inner
        if grouped then return Datum.group entries k d else Datum.extend entries k d
      else return entries) []
    return .object entries

def Term.evalList (s : Scope) : List Term → Except EvalError (List Datum)
  | [] => .ok []
  | t :: ts => do
    let d ← t.eval s
    return d :: (← Term.evalList s ts)

/-- The entries of an object, entered into those before them. -/
def Term.evalEntries (s : Scope) (done : List (String × Datum)) :
    List (Key × Term) → Except EvalError (List (String × Datum))
  | [] => .ok done
  | (k, t) :: es => do
    let key ← k.eval s
    let d ← t.eval s
    Term.evalEntries s (Datum.put done key d) es

def Key.eval (s : Scope) : Key → Except EvalError String
  | .name name => .ok name
  | .computed t => do (← t.eval s).key

/-- Whether all tests hold; the first that does not ends the search. -/
def Term.allTrue (s : Scope) : List Term → Except EvalError Bool
  | [] => .ok true
  | t :: ts => do
    if ← (← t.eval s).truth then Term.allTrue s ts else return false

/-- The text of a part, without the blanks that its neighbours take from it. -/
def Part.eval (s : Scope) (ends : Strip) : Part → Except EvalError String
  | .text t =>
    let cs := if ends.left then Text.stripStart t.toList else t.toList
    .ok (String.ofList (if ends.right then Text.stripEnd cs else cs))
  | .interpolation _ t => do return (← t.eval s).interpolate
  | .branch _ test inYes yes inNo no => do
    if ← (← test.eval s).truth then Part.evalList s inYes yes else Part.evalList s inNo no
  | .loop _ names source inBody body => do
    let rounds ← (← source.eval s).rounds
    let texts ← rounds.mapM fun item => Part.evalList (s.enter names item) inBody body
    return String.join texts

/-- The text of parts between two markers, of which `ends` tells what they take. -/
def Part.evalList (s : Scope) (ends : Strip) : List Part → Except EvalError String
  | [] => .ok ""
  | p :: ps => do
    let ahead := (ps.head?.map Part.strip).elim ends.right Strip.left
    let text ← p.eval s ⟨ends.left, ahead⟩
    return text ++ (← Part.evalList s ⟨p.strip.right, ends.right⟩ ps)

/-- What the accessors lead to from a datum. -/
def Accessor.evalList (s : Scope) (d : Datum) : List Accessor → Except EvalError Datum
  | [] => .ok d
  | .member name :: rest => do Accessor.evalList s (← d.member name) rest
  | .position n :: rest => do Accessor.evalList s (← d.position n) rest
  | .index key :: rest => do Accessor.evalList s (← d.index (← key.eval s)) rest
  | .eachMember names :: rest => do
    let items ← d.spread.mapM (·.members names)
    Accessor.evalList s (.list items) rest
  | .each :: rest => do
    let items ← d.spread.mapM fun d => Accessor.evalList s d rest
    return .list items
end

namespace Expression

mutual
/-- The value of an expression, or the first error of each of its terms. -/
def eval (e : Expression) (env : Environment) (w : Wording) : Except Diagnostics Value :=
  match e with
  | .literal v => .ok v
  | .template parts =>
    match Part.evalList ⟨[], env⟩ ⟨false, false⟩ parts with
    | .ok text => .ok (.string text)
    | .error err => .error [err.toDiagnostic (w.more (.template parts) env err)]
  | .term t =>
    match t.eval ⟨[], env⟩ with
    | .ok d => .ok d.toValue
    | .error err => .error [err.toDiagnostic (w.more (.term t) env err)]
  | .tuple items =>
    match evalList items env w with
    | (values, []) => .ok (.list values)
    | (_, ds) => .error ds
  | .object entries =>
    match evalEntries entries env w with
    | (values, []) => .ok (.ofEntries values)
    | (_, ds) => .error ds

def evalList (items : List Expression) (env : Environment) (w : Wording) :
    List Value × Diagnostics :=
  match items with
  | [] => ([], [])
  | e :: es =>
    let (values, ds) := evalList es env w
    match e.eval env w with
    | .ok v => (v :: values, ds)
    | .error d => (values, d ++ ds)

def evalEntries (entries : List (String × Expression)) (env : Environment) (w : Wording) :
    List (String × Value) × Diagnostics :=
  match entries with
  | [] => ([], [])
  | (k, e) :: es =>
    let (values, ds) := evalEntries es env w
    match e.eval env w with
    | .ok v => ((k, v) :: values, ds)
    | .error d => (values, d ++ ds)
end

/-- The roots that an environment does not bind. -/
def unknownRoots (e : Expression) (env : Environment) : List String :=
  e.roots.filter (!env.binds ·)

def evaluateWith (e : Expression) (env : Environment) (w : Wording) : Except Diagnostics Value :=
  match e with
  | .literal v => .ok v
  | e =>
    match e.unknownRoots env with
    | [] => e.eval env w
    | unknown => .error (unknown.map Diagnostic.unknownVariable)

/-- Evaluation at run time, where nothing looks into the messages. -/
def evaluate (e : Expression) (env : Environment) : Except Diagnostics Value :=
  e.evaluateWith env .brief

end Expression
end PipelineResolution
