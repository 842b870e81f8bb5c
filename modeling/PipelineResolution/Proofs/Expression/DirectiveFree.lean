import PipelineResolution.Proofs.Expression.Reads

/-!
# Expressions without directives

Where no quoted template holds a directive, the reads of an expression are its references, one by
one and in order. So what the references leave out of an evaluation stands in a directive.
-/
namespace PipelineResolution

mutual
/-- No directive stands anywhere inside. -/
def Term.directiveFree : Term → Bool
  | .null | .bool _ | .number _ | .string _ | .malformed _ | .variable _ => true
  | .array items => Term.listDirectiveFree items
  | .object entries => Term.entriesDirectiveFree entries
  | .template _ parts => Part.listDirectiveFree parts
  | .call _ arguments _ => Term.listDirectiveFree arguments
  | .paren inner => inner.directiveFree
  | .conditional test yes no => test.directiveFree && yes.directiveFree && no.directiveFree
  | .unary _ operand => operand.directiveFree
  | .binary _ left right => left.directiveFree && right.directiveFree
  | .access base accessors => base.directiveFree && Accessor.listDirectiveFree accessors
  | .listFor _ source body tests =>
    source.directiveFree && (body.directiveFree && Term.listDirectiveFree tests)
  | .objectFor _ source key body _ tests =>
    source.directiveFree &&
      (key.directiveFree && body.directiveFree && Term.listDirectiveFree tests)

def Term.listDirectiveFree : List Term → Bool
  | [] => true
  | t :: ts => t.directiveFree && Term.listDirectiveFree ts

def Term.entriesDirectiveFree : List (Key × Term) → Bool
  | [] => true
  | (k, t) :: es => k.directiveFree && t.directiveFree && Term.entriesDirectiveFree es

def Key.directiveFree : Key → Bool
  | .name _ => true
  | .computed t => t.directiveFree

def Part.directiveFree : Part → Bool
  | .text _ => true
  | .interpolation _ t => t.directiveFree
  | .branch .. | .loop .. => false

def Part.listDirectiveFree : List Part → Bool
  | [] => true
  | p :: ps => p.directiveFree && Part.listDirectiveFree ps

def Accessor.directiveFree : Accessor → Bool
  | .index key => key.directiveFree
  | .member _ | .position _ | .eachMember _ | .each => true

def Accessor.listDirectiveFree : List Accessor → Bool
  | [] => true
  | a :: rest => a.directiveFree && Accessor.listDirectiveFree rest
end

namespace Expression

mutual
def directiveFree : Expression → Bool
  | .literal _ => true
  | .template parts => Part.listDirectiveFree parts
  | .term t => t.directiveFree
  | .tuple items => listDirectiveFree items
  | .object entries => entriesDirectiveFree entries

def listDirectiveFree : List Expression → Bool
  | [] => true
  | e :: es => e.directiveFree && listDirectiveFree es

def entriesDirectiveFree : List (String × Expression) → Bool
  | [] => true
  | (_, e) :: es => e.directiveFree && entriesDirectiveFree es
end

end Expression

/-- Leaving out the names of a loop is the same before and after reads become references. -/
theorem map_reference_filter (names : LoopNames) (rs : List Read) :
    (rs.filter (!names.binds ·.root)).map Read.reference =
      (rs.map Read.reference).filter (!names.binds ·.root) := by
  rw [List.filter_map]
  rfl

/-- A reference spells a constant index as the read does. -/
theorem Term.segment?_eq (t : Term) : t.segment? = t.step?.map PathStep.text := by
  cases t <;> rfl

theorem Term.reads_of_step? {t : Term} {step : PathStep} (h : t.step? = some step) :
    t.reads = [] := by
  cases t <;> first | rfl | cases h

mutual
theorem Term.map_reference_reads : (t : Term) → t.directiveFree = true →
    t.reads.map Read.reference = t.references
  | .null, _ | .bool _, _ | .number _, _ | .string _, _ | .malformed _, _ | .variable _, _ => rfl
  | .array items, h => Term.map_reference_listReads items h
  | .object entries, h => Term.map_reference_entryReads entries h
  | .template _ parts, h => Part.map_reference_listReads parts h
  | .call _ arguments _, h => Term.map_reference_listReads arguments h
  | .paren inner, h => Term.map_reference_reads inner h
  | .conditional test yes no, h => by
    simp only [Term.directiveFree, Bool.and_eq_true] at h
    simp only [Term.reads, Term.references, List.map_append,
      Term.map_reference_reads test h.1.1, Term.map_reference_reads yes h.1.2,
      Term.map_reference_reads no h.2]
  | .unary _ operand, h => Term.map_reference_reads operand h
  | .binary _ left right, h => by
    simp only [Term.directiveFree, Bool.and_eq_true] at h
    simp only [Term.reads, Term.references, List.map_append,
      Term.map_reference_reads left h.1, Term.map_reference_reads right h.2]
  | .access base accessors, h => by
    simp only [Term.directiveFree, Bool.and_eq_true] at h
    by_cases hb : ∃ name, base = .variable name
    · obtain ⟨name, rfl⟩ := hb
      simp only [Term.reads, Term.references, List.map_append, List.map_cons, List.map_nil]
      exact (Accessor.follow_some accessors ⟨name, []⟩ h.2).symm
    · rw [Term.reads_access (not_exists.1 hb), List.map_append, Term.map_reference_reads base h.1,
        ← Accessor.follow_none accessors h.2]
      exact (Term.references_access (not_exists.1 hb) accessors).symm
  | .listFor names source body tests, h => by
    simp only [Term.directiveFree, Bool.and_eq_true] at h
    simp only [Term.reads, Term.references, List.map_append, map_reference_filter,
      Term.map_reference_reads source h.1, Term.map_reference_reads body h.2.1,
      Term.map_reference_listReads tests h.2.2]
  | .objectFor names source key body _ tests, h => by
    simp only [Term.directiveFree, Bool.and_eq_true] at h
    simp only [Term.reads, Term.references, List.map_append, map_reference_filter,
      Term.map_reference_reads source h.1, Term.map_reference_reads key h.2.1.1,
      Term.map_reference_reads body h.2.1.2, Term.map_reference_listReads tests h.2.2]

theorem Term.map_reference_listReads : (ts : List Term) → Term.listDirectiveFree ts = true →
    (Term.listReads ts).map Read.reference = Term.listReferences ts
  | [], _ => rfl
  | t :: ts, h => by
    simp only [Term.listDirectiveFree, Bool.and_eq_true] at h
    simp only [Term.listReads, Term.listReferences, List.map_append,
      Term.map_reference_reads t h.1, Term.map_reference_listReads ts h.2]

theorem Term.map_reference_entryReads : (es : List (Key × Term)) →
    Term.entriesDirectiveFree es = true →
      (Term.entryReads es).map Read.reference = Term.entryReferences es
  | [], _ => rfl
  | (k, t) :: es, h => by
    simp only [Term.entriesDirectiveFree, Bool.and_eq_true] at h
    simp only [Term.entryReads, Term.entryReferences, List.map_append,
      Key.map_reference_reads k h.1.1, Term.map_reference_reads t h.1.2,
      Term.map_reference_entryReads es h.2]

theorem Key.map_reference_reads : (k : Key) → k.directiveFree = true →
    k.reads.map Read.reference = k.references
  | .name _, _ => rfl
  | .computed t, h => Term.map_reference_reads t h

theorem Part.map_reference_reads : (p : Part) → p.directiveFree = true →
    p.reads.map Read.reference = p.references
  | .text _, _ => rfl
  | .interpolation _ t, h => Term.map_reference_reads t h
  | .branch .., h | .loop .., h => by cases h

theorem Part.map_reference_listReads : (ps : List Part) → Part.listDirectiveFree ps = true →
    (Part.listReads ps).map Read.reference = Part.listReferences ps
  | [], _ => rfl
  | p :: ps, h => by
    simp only [Part.listDirectiveFree, Bool.and_eq_true] at h
    simp only [Part.listReads, Part.listReferences, List.map_append,
      Part.map_reference_reads p h.1, Part.map_reference_listReads ps h.2]

/-- A reference grows along the constant steps and is followed by those of computed indexes. -/
theorem Accessor.follow_some : (as : List Accessor) → (r : Reference) →
    Accessor.listDirectiveFree as = true → Accessor.follow (some r) as =
      ⟨r.root, r.path ++ (Accessor.path as).map PathStep.text⟩ ::
        (Accessor.listReads as).map Read.reference
  | [], r, _ => by simp [Accessor.follow, Accessor.path, Accessor.listReads]
  | .member name :: rest, r, h => by
    simp only [Accessor.listDirectiveFree, Accessor.directiveFree, Bool.true_and] at h
    rw [Accessor.follow, Option.map_some, Accessor.follow_some rest _ h]
    simp [Accessor.path, Accessor.listReads, Accessor.reads, PathStep.text]
  | .position n :: rest, r, h => by
    simp only [Accessor.listDirectiveFree, Accessor.directiveFree, Bool.true_and] at h
    rw [Accessor.follow, Option.map_some, Accessor.follow_some rest _ h]
    simp [Accessor.path, Accessor.listReads, Accessor.reads, PathStep.text]
  | .index key :: rest, r, h => by
    simp only [Accessor.listDirectiveFree, Accessor.directiveFree, Bool.and_eq_true] at h
    cases step : key.step? with
    | none =>
      have segment : key.segment? = none := by rw [Term.segment?_eq, step]; rfl
      simp only [Accessor.follow, segment]
      rw [Accessor.follow_none rest h.2, ← Term.map_reference_reads key h.1]
      simp [Accessor.path, Accessor.listReads, Accessor.reads, step]
    | some found =>
      have segment : key.segment? = some found.text := by rw [Term.segment?_eq, step]; rfl
      simp only [Accessor.follow, segment]
      rw [Accessor.follow_some rest _ h.2]
      simp [Accessor.path, Accessor.listReads, Accessor.reads, step, Term.reads_of_step? step]
  | .eachMember _ :: rest, r, h => by
    simp only [Accessor.listDirectiveFree, Accessor.directiveFree, Bool.true_and] at h
    rw [Accessor.follow, Accessor.follow_none rest h]
    simp [Accessor.path, Accessor.listReads, Accessor.reads]
  | .each :: rest, r, h => by
    simp only [Accessor.listDirectiveFree, Accessor.directiveFree, Bool.true_and] at h
    rw [Accessor.follow, Accessor.follow_none rest h]
    simp [Accessor.path, Accessor.listReads, Accessor.reads]

theorem Accessor.follow_none : (as : List Accessor) → Accessor.listDirectiveFree as = true →
    Accessor.follow none as = (Accessor.listReads as).map Read.reference
  | [], _ => rfl
  | .index key :: rest, h => by
    simp only [Accessor.listDirectiveFree, Accessor.directiveFree, Bool.and_eq_true] at h
    rw [Accessor.follow, Accessor.follow_none rest h.2, ← Term.map_reference_reads key h.1]
    · simp [Accessor.listReads, Accessor.reads]
    · simp
  | .member _ :: rest, h | .position _ :: rest, h | .eachMember _ :: rest, h
  | .each :: rest, h => by
    simp only [Accessor.listDirectiveFree, Accessor.directiveFree, Bool.true_and] at h
    simp only [Accessor.follow, Option.map_none, Option.toList_none, List.nil_append,
      Accessor.follow_none rest h, Accessor.listReads, Accessor.reads]
end

namespace Expression

mutual
/-- Without directives the reads of an expression are its references, in the same order. -/
theorem map_reference_reads : (e : Expression) → e.directiveFree = true →
    e.reads.map Read.reference = e.references
  | .literal _, _ => rfl
  | .template parts, h => Part.map_reference_listReads parts h
  | .term t, h => t.map_reference_reads h
  | .tuple items, h => map_reference_listReads items h
  | .object entries, h => map_reference_entryReads entries h

theorem map_reference_listReads : (es : List Expression) → listDirectiveFree es = true →
    (listReads es).map Read.reference = listReferences es
  | [], _ => rfl
  | e :: es, h => by
    simp only [listDirectiveFree, Bool.and_eq_true] at h
    simp only [listReads, listReferences, List.map_append, map_reference_reads e h.1,
      map_reference_listReads es h.2]

theorem map_reference_entryReads : (es : List (String × Expression)) →
    entriesDirectiveFree es = true → (entryReads es).map Read.reference = entryReferences es
  | [], _ => rfl
  | (_, e) :: es, h => by
    simp only [entriesDirectiveFree, Bool.and_eq_true] at h
    simp only [entryReads, entryReferences, List.map_append, map_reference_reads e h.1,
      map_reference_entryReads es h.2]
end

variable {e : Expression}

theorem reference_mem_of_directiveFree (h : e.directiveFree = true) {r : Read}
    (hr : r ∈ e.reads) : r.reference ∈ e.references := by
  rw [← map_reference_reads e h]
  exact List.mem_map_of_mem hr

end Expression
end PipelineResolution
