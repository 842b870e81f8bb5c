import PipelineResolution.Resolution.Attribute

/-!
# Parameters

A pipeline declares what it is started with. A declaration is static: all of its attributes have to
be known when the document is read.
-/
namespace PipelineResolution

def ParamType.accepts : ParamType → Value → Bool
  | .any, _ => true
  | .string, .string _ => true
  | .number, .number _ => true
  | .bool, .bool _ => true
  | .list, .list _ => true
  | .map, .map _ => true
  | _, _ => false

structure Param where
  name : String
  type : ParamType := .any
  default : Option Value := none
  optional : Bool := false
  description : Option String := none
  location : Location

namespace Param

def accepts (p : Param) (v : Value) : Bool := p.type.accepts v

/-- Without a default a parameter has to be supplied unless it is optional. -/
def isRequired (p : Param) : Bool := p.default.isNone && !p.optional

def mismatch (a : Attribute) (expected : String) (v : Value) : Diagnostic :=
  (Diagnostic.error "Incorrect attribute value type"
    ("The param attribute \"" ++ a.name ++ "\" must be " ++ expected ++ ", got " ++ v.typeName
      ++ ".")).about a.location

def store (p : Param) (a : Attribute) (v : Value) : Param × Diagnostics :=
  match a.name, v with
  | "type", .string text =>
    match Keyword.parse ParamType text with
    | .ok type => ({ p with type }, [])
    | .error e => (p, [(Diagnostic.validation "Invalid param type" e.message).about a.location])
  | "default", v => ({ p with default := some v }, [])
  | "optional", .bool b => ({ p with optional := b }, [])
  | "description", .string text => ({ p with description := some text }, [])
  | "type", v | "description", v => (p, [mismatch a "a string" v])
  | "optional", v => (p, [mismatch a "a bool" v])
  | _, _ => (p, [])

def setAttribute (ctx : ResolutionContext) (p : Param) (a : Attribute) :
    Param × Diagnostics :=
  match (a.resolve ctx).outcome with
  | .resolved v => p.store a v
  | .deferred => (p, [(Diagnostic.error "Invalid param attribute" ("The param attribute \"" ++ a.name
      ++ "\" must be known before the pipeline runs.")).about a.location])
  | .failed ds => (p, ds)

def checkDefault (p : Param) : Diagnostics :=
  match p.default with
  | some v =>
    if p.accepts v then []
    else [(Diagnostic.validation "Invalid param default" ("The default of param \"" ++ p.name
      ++ "\" must be of type " ++ Keyword.spell p.type ++ ", got " ++ v.typeName ++ ".")).about
      (p.location.child "default")]
  | none => []

def ofBlock (b : Block) (ctx : ResolutionContext) : Except Diagnostics Param :=
  match b.label? 0 with
  | none => .error [(Diagnostic.error "Missing name for param"
      "A param block needs a name label.").about b.location]
  | some name =>
    let unsupported := b.unsupportedAttributes ["type", "default", "optional", "description"]
    let (p, ds) := Diagnostics.gather (setAttribute ctx) { name, location := b.location } b.attributes
    Diagnostics.orValue (unsupported ++ ds ++ p.checkDefault) p

/-- What a parameter is bound to: the supplied value, else the default, else null if it may be
absent. -/
def bind (p : Param) (supplied : Option Value) : Except Diagnostic Value :=
  match supplied <|> p.default with
  | some v =>
    if p.accepts v then .ok v
    else .error ((Diagnostic.error "Invalid param value" ("Param \"" ++ p.name
      ++ "\" must be of type " ++ Keyword.spell p.type ++ ", got " ++ v.typeName ++ ".")).about
      p.location)
  | none =>
    if p.isRequired then
      .error ((Diagnostic.error "Missing param" ("Param \"" ++ p.name ++ "\" is required.")).about
        p.location)
    else .ok .null

end Param
end PipelineResolution
