/-!
# Reading from the front of an input

A reading takes items from the front of an input and leaves the rest, or fails. A list is an input.
`many` goes on as long as its reading makes progress, which is why it ends.
-/
namespace PipelineResolution

class Input (σ : Type) (τ : outParam Type) where
  /-- The items that are still to be read. -/
  ahead : σ → List τ
  /-- The input after a number of items. -/
  skip : Nat → σ → σ

instance {τ : Type} : Input (List τ) τ := ⟨id, List.drop⟩

/-- A value read from the front of an input, with the rest of the input. -/
def Reading (σ α : Type) : Type := σ → Option (α × σ)

namespace Reading
variable {σ τ α β : Type}

instance : Monad (Reading σ) where
  pure a := fun s => some (a, s)
  bind p f := fun s =>
    match p s with
    | none => none
    | some (a, rest) => f a rest

def fail : Reading σ α := fun _ => none

/-- The first of two readings that succeeds. -/
def orElse (p : Reading σ α) (q : Unit → Reading σ α) : Reading σ α := fun s =>
  match p s with
  | none => q () s
  | r => r

instance : OrElse (Reading σ α) := ⟨orElse⟩

/-- What a reading gives, if it gives anything. -/
def optional (p : Reading σ α) : Reading σ (Option α) := fun s =>
  match p s with
  | none => some (none, s)
  | some (a, rest) => some (some a, rest)

/-- Whether a reading would succeed; takes nothing. -/
def isAhead (p : Reading σ α) : Reading σ Bool := fun s => some ((p s).isSome, s)

/-- Succeeds with nothing taken where another reading fails. -/
def notAhead (p : Reading σ α) : Reading σ Unit := fun s =>
  match p s with
  | none => some ((), s)
  | some _ => none

section Items
variable [Input σ τ]

def satisfy (test : τ → Bool) : Reading σ τ := fun s =>
  match Input.ahead s with
  | [] => none
  | c :: _ => if test c then some (c, Input.skip 1 s) else none

def span (test : τ → Bool) : Reading σ (List τ) := fun s =>
  let run := (Input.ahead s).takeWhile test
  some (run, Input.skip run.length s)

def span1 (test : τ → Bool) : Reading σ (List τ) := do
  let run ← span test
  if run.isEmpty then fail else return run

/-- Succeeds when the next item, or its absence, passes a test; takes nothing. -/
def nextIs (test : Option τ → Bool) : Reading σ Unit := fun s =>
  if test (Input.ahead s).head? then some ((), s) else none

/-- Reads as often as possible. A reading that takes nothing is the last one. -/
def runMany (p : Reading σ α) (s : σ) : List α × σ :=
  match p s with
  | none => ([], s)
  | some (a, rest) =>
    if (Input.ahead rest).length < (Input.ahead s).length then
      let (more, rest) := runMany p rest
      (a :: more, rest)
    else ([a], rest)
termination_by (Input.ahead s).length

def many (p : Reading σ α) : Reading σ (List α) := fun s => some (runMany p s)

def sepBy1 (p : Reading σ α) (sep : Reading σ β) : Reading σ (List α) := do
  let first ← p
  let more ← many (do let _ ← sep; p)
  return first :: more

/-- Reads a whole input. -/
def whole? (p : Reading σ α) (s : σ) : Option α :=
  match p s with
  | some (a, rest) => if (Input.ahead rest).isEmpty then some a else none
  | none => none

end Items
end Reading
end PipelineResolution
