import PipelineResolution.Text.Parser

/-!
# Texts that are spelled anew while they are read

A source keeps what was read of it. `respell` replaces what a reading took by another spelling of
what it found, and `spelling` gives the text that a reading leaves behind; all other characters stay
as they were written.
-/
namespace PipelineResolution.Text

structure Source where
  rest : List Char
  /-- What was read as it is spelled now, last character first. -/
  spelled : List Char

instance : Input Source Char where
  ahead s := s.rest
  skip n s := ⟨s.rest.drop n, (s.rest.take n).reverse ++ s.spelled⟩

namespace Source
variable {α : Type}

def ofChars (cs : List Char) : Source := ⟨cs, []⟩

/-- What a reading finds, and how it is spelled. -/
def spelling (p : Reading Source α) : Reading Source (α × List Char) := fun s =>
  (p ⟨s.rest, []⟩).map fun (a, t) => ((a, t.spelled.reverse), ⟨t.rest, t.spelled ++ s.spelled⟩)

def respell (spell : α → List Char) (p : Reading Source α) : Reading Source α := fun s =>
  (p s).map fun (a, t) => (a, ⟨t.rest, (spell a).reverse ++ s.spelled⟩)

end Source
end PipelineResolution.Text
