import PipelineResolution.Expression.Eval

/-!
# What evaluation reads

A read is a root name with the constant steps that follow it. `Term.reads` lists the reads of a
whole term, those inside the directives of quoted templates included, and keeps apart a step to a
key from a step to a position. Without directives the reads are the references, one by one.
-/
namespace PipelineResolution

/-- A constant step from a value to a value inside it. -/
inductive PathStep where
  | key (name : String)
  /-- A number, as it is displayed. -/
  | number (text : String)
  deriving DecidableEq

def PathStep.text : PathStep → String
  | .key name => name
  | .number text => text

structure Read where
  root : String
  path : List PathStep
  deriving DecidableEq

/-- The read as a reference, which does not tell a number from a key. -/
def Read.reference (r : Read) : Reference := ⟨r.root, r.path.map PathStep.text⟩

/-- A constant index as a step. -/
def Term.step? : Term → Option PathStep
  | .string s => some (.key s)
  | .number n => some (.number n.display)
  | _ => none

/-- The constant steps that accessors begin with. -/
def Accessor.path : List Accessor → List PathStep
  | .member name :: rest => .key name :: path rest
  | .position n :: rest => .number (toString n) :: path rest
  | .index key :: rest =>
    match key.step? with
    | some step => step :: path rest
    | none => []
  | _ => []

mutual
def Term.reads : Term → List Read
  | .null | .bool _ | .number _ | .string _ | .malformed _ => []
  | .variable name => [⟨name, []⟩]
  | .array items => Term.listReads items
  | .object entries => Term.entryReads entries
  | .template _ parts => Part.listReads parts
  | .call _ arguments _ => Term.listReads arguments
  | .paren inner => inner.reads
  | .conditional test yes no => test.reads ++ yes.reads ++ no.reads
  | .unary _ operand => operand.reads
  | .binary _ left right => left.reads ++ right.reads
  | .access base accessors =>
    (match base with
      | .variable name => [⟨name, Accessor.path accessors⟩]
      | base => base.reads) ++ Accessor.listReads accessors
  | .listFor names source body tests =>
    source.reads ++ (body.reads ++ Term.listReads tests).filter (!names.binds ·.root)
  | .objectFor names source key body _ tests =>
    source.reads ++ (key.reads ++ body.reads ++ Term.listReads tests).filter (!names.binds ·.root)

def Term.listReads : List Term → List Read
  | [] => []
  | t :: ts => t.reads ++ Term.listReads ts

def Term.entryReads : List (Key × Term) → List Read
  | [] => []
  | (k, t) :: es => k.reads ++ t.reads ++ Term.entryReads es

def Key.reads : Key → List Read
  | .name _ => []
  | .computed t => t.reads

def Part.reads : Part → List Read
  | .text _ => []
  | .interpolation _ t => t.reads
  | .branch _ test _ yes _ no => test.reads ++ Part.listReads yes ++ Part.listReads no
  | .loop _ names source _ body =>
    source.reads ++ (Part.listReads body).filter (!names.binds ·.root)

def Part.listReads : List Part → List Read
  | [] => []
  | p :: ps => p.reads ++ Part.listReads ps

/-- The reads of computed indexes. -/
def Accessor.reads : Accessor → List Read
  | .index key => key.reads
  | .member _ | .position _ | .eachMember _ | .each => []

def Accessor.listReads : List Accessor → List Read
  | [] => []
  | a :: rest => a.reads ++ Accessor.listReads rest
end

namespace Expression

mutual
def reads : Expression → List Read
  | .literal _ => []
  | .template parts => Part.listReads parts
  | .term t => t.reads
  | .tuple items => listReads items
  | .object entries => entryReads entries

def listReads : List Expression → List Read
  | [] => []
  | e :: es => e.reads ++ listReads es

def entryReads : List (String × Expression) → List Read
  | [] => []
  | (_, e) :: es => e.reads ++ entryReads es
end

end Expression

theorem Term.references_access {base : Term} (h : ∀ name, base ≠ .variable name)
    (accessors : List Accessor) :
    (Term.access base accessors).references =
      base.references ++ Accessor.follow none accessors := by
  cases base <;> first | exact absurd rfl (h _) | simp only [Term.references]

theorem Term.reads_access {base : Term} (h : ∀ name, base ≠ .variable name)
    (accessors : List Accessor) :
    (Term.access base accessors).reads = base.reads ++ Accessor.listReads accessors := by
  cases base <;> first | exact absurd rfl (h _) | simp only [Term.reads]

/-- The roots of the references are among the names that are read. -/
def Rooted (refs : List Reference) (reads : List Read) : Prop :=
  ∀ r ∈ refs, ∃ x ∈ reads, x.root = r.root

namespace Rooted
variable {refs others : List Reference} {reads more : List Read}

theorem nil : Rooted [] reads := fun _ hr => nomatch hr

/-- No reference has begun yet. -/
theorem none : Rooted (Option.none : Option Reference).toList [] := nil

theorem append (h : Rooted refs reads) (ho : Rooted others more) :
    Rooted (refs ++ others) (reads ++ more) := by
  intro r hr
  rcases List.mem_append.1 hr with hr | hr
  · obtain ⟨x, hx, root⟩ := h r hr
    exact ⟨x, List.mem_append_left _ hx, root⟩
  · obtain ⟨x, hx, root⟩ := ho r hr
    exact ⟨x, List.mem_append_right _ hx, root⟩

theorem filter (h : Rooted refs reads) (keep : String → Bool) :
    Rooted (refs.filter (keep ·.root)) (reads.filter (keep ·.root)) := by
  intro r hr
  obtain ⟨hr, kept⟩ := List.mem_filter.1 hr
  obtain ⟨x, hx, root⟩ := h r hr
  exact ⟨x, List.mem_filter.2 ⟨hx, root ▸ kept⟩, root⟩

theorem mono (h : Rooted refs reads) (hs : reads ⊆ more) : Rooted refs more := fun r hr =>
  (h r hr).imp fun _ hx => ⟨hs hx.1, hx.2⟩

theorem extend {current : Option Reference} (h : Rooted current.toList reads) (segment : String) :
    Rooted (current.map fun r => { r with path := r.path ++ [segment] }).toList reads := by
  cases current with
  | none => exact nil
  | some r => exact fun _ hx => (List.mem_singleton.1 hx) ▸ h r List.mem_cons_self

end Rooted

mutual
theorem Term.rooted : (t : Term) → Rooted t.references t.reads
  | .null | .bool _ | .number _ | .string _ | .malformed _ => by
    rw [Term.references]
    exact .nil
  | .variable name => by
    rw [Term.references, Term.reads]
    exact fun r hr => ⟨_, List.mem_cons_self, by rw [List.mem_singleton.1 hr]⟩
  | .array items => by
    rw [Term.references, Term.reads]
    exact Term.rooted_list items
  | .object entries => by
    rw [Term.references, Term.reads]
    exact Term.rooted_entries entries
  | .template _ parts => by
    rw [Term.references, Term.reads]
    exact Part.rooted_list parts
  | .call _ arguments _ => by
    rw [Term.references, Term.reads]
    exact Term.rooted_list arguments
  | .paren inner => by
    rw [Term.references, Term.reads]
    exact Term.rooted inner
  | .conditional test yes no => by
    rw [Term.references, Term.reads]
    exact ((Term.rooted test).append (Term.rooted yes)).append (Term.rooted no)
  | .unary _ operand => by
    rw [Term.references, Term.reads]
    exact Term.rooted operand
  | .binary _ left right => by
    rw [Term.references, Term.reads]
    exact (Term.rooted left).append (Term.rooted right)
  | .access base accessors => by
    by_cases hb : ∃ name, base = .variable name
    · obtain ⟨name, rfl⟩ := hb
      rw [Term.references, Term.reads]
      exact Accessor.rooted_follow accessors fun r hr =>
        ⟨_, List.mem_cons_self, by rw [List.mem_singleton.1 hr]⟩
    · have other := not_exists.1 hb
      rw [Term.references_access other, Term.reads_access other]
      exact (Term.rooted base).append (Accessor.rooted_follow accessors .none)
  | .listFor names source body tests => by
    rw [Term.references, Term.reads]
    exact (Term.rooted source).append
      (((Term.rooted body).append (Term.rooted_list tests)).filter (!names.binds ·))
  | .objectFor names source key body _ tests => by
    rw [Term.references, Term.reads]
    exact (Term.rooted source).append ((((Term.rooted key).append (Term.rooted body)).append
      (Term.rooted_list tests)).filter (!names.binds ·))

theorem Term.rooted_list : (ts : List Term) → Rooted (Term.listReferences ts) (Term.listReads ts)
  | [] => .nil
  | t :: ts => (Term.rooted t).append (Term.rooted_list ts)

theorem Term.rooted_entries : (es : List (Key × Term)) →
    Rooted (Term.entryReferences es) (Term.entryReads es)
  | [] => .nil
  | (k, t) :: es => ((Key.rooted k).append (Term.rooted t)).append (Term.rooted_entries es)

theorem Key.rooted : (k : Key) → Rooted k.references k.reads
  | .name _ => .nil
  | .computed t => Term.rooted t

/-- A directive reads and refers to nothing. -/
theorem Part.rooted : (p : Part) → Rooted p.references p.reads
  | .text _ | .branch .. | .loop .. => .nil
  | .interpolation _ t => Term.rooted t

theorem Part.rooted_list : (ps : List Part) →
    Rooted (Part.listReferences ps) (Part.listReads ps)
  | [] => .nil
  | p :: ps => (Part.rooted p).append (Part.rooted_list ps)

/-- A reference keeps its root while accessors extend it. -/
theorem Accessor.rooted_follow : (as : List Accessor) → {current : Option Reference} →
    {reads : List Read} → Rooted current.toList reads →
    Rooted (Accessor.follow current as) (reads ++ Accessor.listReads as)
  | [], _, _, h => by
    rw [Accessor.follow, Accessor.listReads, List.append_nil]
    exact h
  | .member _ :: rest, _, _, h | .position _ :: rest, _, _, h => by
    rw [Accessor.follow, Accessor.listReads]
    exact Accessor.rooted_follow rest (h.extend _)
  | .index key :: rest, current, _, h => by
    rw [Accessor.listReads, ← List.append_assoc]
    unfold Accessor.follow
    split
    · exact (Accessor.rooted_follow rest (h.extend _)).mono (by simp)
    · rw [Accessor.reads]
      exact (h.append key.rooted).append (Accessor.rooted_follow rest .none)
  | .eachMember _ :: rest, _, _, h | .each :: rest, _, _, h => by
    rw [Accessor.follow, Accessor.listReads]
    exact h.append (Accessor.rooted_follow rest .none)
end

namespace Expression

mutual
/-- Every reference is rooted at a name that is read. -/
theorem rooted : (e : Expression) → Rooted e.references e.reads
  | .literal _ => .nil
  | .template parts => Part.rooted_list parts
  | .term t => t.rooted
  | .tuple items => rooted_list items
  | .object entries => rooted_entries entries

theorem rooted_list : (es : List Expression) → Rooted (listReferences es) (listReads es)
  | [] => .nil
  | e :: es => (rooted e).append (rooted_list es)

theorem rooted_entries : (es : List (String × Expression)) →
    Rooted (entryReferences es) (entryReads es)
  | [] => .nil
  | (_, e) :: es => (rooted e).append (rooted_entries es)
end

end Expression
end PipelineResolution
