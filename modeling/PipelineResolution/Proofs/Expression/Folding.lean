import Mathlib.Data.List.Forall2
import PipelineResolution.Document.Decode
import PipelineResolution.Expression.Eval
import PipelineResolution.Proofs.Dict
import PipelineResolution.Proofs.Failing

/-!
# Folding of constants

A term that is written out becomes a literal when it is read, and so does a list or a mapping of
literals. What was folded refers to nothing, and every environment gives it the value of the
literal. So neither the references of an expression nor its values and reports tell it apart from one
in which every list and mapping is kept.
-/
namespace PipelineResolution

namespace Datum

theorem entriesToValues_eq (entries : List (String × Datum)) :
    entriesToValues entries = entries.map fun e => (e.1, e.2.toValue) := by
  induction entries with
  | nil => rfl
  | cons e entries ih => exact congrArg _ ih

/-- An entry that is put among others is the last one of its key. -/
theorem getLast?_put (entries : List (String × Datum)) (key other : String) (d : Datum) :
    ((put entries key d).filter (·.1 == other)).getLast? =
      if key = other then some (key, d) else (entries.filter (·.1 == other)).getLast? := by
  unfold put
  split
  · rename_i present
    let replaced (e : String × Datum) := if e.1 == key then (key, d) else e
    have kept (e : String × Datum) : (replaced e).1 = e.1 := by
      dsimp only [replaced]
      split
      · rename_i same
        exact (beq_iff_eq.1 same).symm
      · rfl
    have moved : (entries.map replaced).filter (·.1 == other) =
        (entries.filter (·.1 == other)).map replaced := by
      rw [List.filter_map]
      exact congrArg _ (List.filter_congr fun e _ => congrArg (· == other) (kept e))
    change ((entries.map replaced).filter (·.1 == other)).getLast? = _
    rw [moved, List.getLast?_map]
    cases last : (entries.filter (·.1 == other)).getLast? with
    | none =>
      obtain ⟨e, he, named⟩ := List.any_eq_true.1 present
      have absent := List.filter_eq_nil_iff.1 (List.getLast?_eq_none_iff.1 last) e he
      have ne : key ≠ other := by
        rintro rfl
        exact absent named
      rw [if_neg ne]
      rfl
    | some e =>
      obtain rfl : e.1 = other :=
        beq_iff_eq.1 (List.mem_filter.1 (List.mem_of_getLast? last)).2
      simp only [replaced, Option.map_some, beq_iff_eq, eq_comm (a := key)]
      split <;> rfl
  · rw [List.filter_append]
    by_cases same : key = other <;> simp [same]

theorem ofEntries_put (entries : List (String × Datum)) (key : String) (d : Datum) :
    Dict.ofEntries (entriesToValues (put entries key d)) =
      (Dict.ofEntries (entriesToValues entries)).insert key d.toValue := by
  refine (Dict.sorted_ofEntries _).ext ((Dict.sorted_ofEntries _).insert _ _) fun other => ?_
  have last (es : List (String × Datum)) : (Dict.ofEntries (entriesToValues es)).get? other =
      (es.filter (·.1 == other)).getLast?.map (·.2.toValue) := by
    rw [Dict.get?_ofEntries_eq_getLast?, entriesToValues_eq, List.filter_map, List.getLast?_map,
      Option.map_map]
    rfl
  rw [last, getLast?_put, Dict.get?_insert, last]
  split <;> rfl

/-- Entries that are put one after another count like those of a dictionary. -/
theorem ofEntries_foldl_put (entries done : List (String × Datum)) :
    Dict.ofEntries (entriesToValues (entries.foldl (fun es e => put es e.1 e.2) done)) =
      (entriesToValues entries).foldl (fun d e => d.insert e.1 e.2)
        (Dict.ofEntries (entriesToValues done)) := by
  induction entries generalizing done with
  | nil => rfl
  | cons e entries ih =>
    rw [List.foldl_cons, ih, ofEntries_put]
    rfl

end Datum

namespace Term

/-- A term that evaluates to one datum wherever it stands. -/
structure Yields (t : Term) (d : Datum) : Prop where
  references : t.references = []
  eval (s : Scope) : t.eval s = .ok d

end Term

theorem Key.eval_of_constant? {k : Key} {key : String} (h : k.constant? = some key) :
    k.references = [] ∧ ∀ s, k.eval s = .ok key := by
  unfold constant? at h
  split at h
  · cases h
    exact ⟨rfl, fun _ => rfl⟩
  · cases h
    exact ⟨rfl, fun _ => rfl⟩
  · cases h

mutual
/-- A constant term evaluates to its value. -/
theorem Term.yields_of_constant? : (t : Term) → {v : Value} → t.constant? = some v →
    ∃ d : Datum, t.Yields d ∧ d.toValue = v
  | .null, _, rfl => ⟨.null, ⟨rfl, fun _ => rfl⟩, rfl⟩
  | .bool b, _, rfl => ⟨.bool b, ⟨rfl, fun _ => rfl⟩, rfl⟩
  | .number n, _, rfl => ⟨.number n, ⟨rfl, fun _ => rfl⟩, rfl⟩
  | .string s, _, rfl => ⟨.string s, ⟨rfl, fun _ => rfl⟩, rfl⟩
  | .paren inner, _, h =>
    have ⟨d, yields, value⟩ := Term.yields_of_constant? inner h
    ⟨d, ⟨yields.references, yields.eval⟩, value⟩
  | .array items, _, h => by
    obtain ⟨vs, hvs, rfl⟩ := Option.map_eq_some_iff.1 h
    obtain ⟨references, ds, eval, rfl⟩ := Term.evalList_of_constants? items hvs
    exact ⟨.list ds, ⟨references, fun s => by rw [Term.eval, eval]; rfl⟩, rfl⟩
  | .object entries, _, h => by
    obtain ⟨vs, hvs, rfl⟩ := Option.map_eq_some_iff.1 h
    obtain ⟨references, ds, eval, rfl⟩ := Term.evalEntries_of_constantEntries? entries hvs
    refine ⟨.object (ds.foldl (fun es e => Datum.put es e.1 e.2) []), ⟨references, fun s => ?_⟩, ?_⟩
    · rw [Term.eval, eval]
      rfl
    · exact congrArg Value.map (Datum.ofEntries_foldl_put ds [])

theorem Term.evalList_of_constants? : (ts : List Term) → {vs : List Value} →
    Term.constants? ts = some vs → Term.listReferences ts = [] ∧
      ∃ ds, (∀ s, Term.evalList s ts = .ok ds) ∧ Datum.listToValues ds = vs
  | [], _, rfl => ⟨rfl, [], fun _ => rfl, rfl⟩
  | t :: ts, _, h => by
    obtain ⟨v, hv, h⟩ := Option.bind_eq_some_iff.1 h
    obtain ⟨vs, hvs, h⟩ := Option.bind_eq_some_iff.1 h
    cases h
    obtain ⟨d, head, rfl⟩ := Term.yields_of_constant? t hv
    obtain ⟨references, ds, eval, rfl⟩ := Term.evalList_of_constants? ts hvs
    refine ⟨?_, d :: ds, fun s => ?_, rfl⟩
    · rw [Term.listReferences, head.references, references, List.nil_append]
    · rw [Term.evalList, head.eval, eval]
      rfl

theorem Term.evalEntries_of_constantEntries? : (es : List (Key × Term)) →
    {vs : List (String × Value)} → Term.constantEntries? es = some vs →
    Term.entryReferences es = [] ∧ ∃ ds, (∀ s done, Term.evalEntries s done es =
      .ok (ds.foldl (fun es e => Datum.put es e.1 e.2) done)) ∧ Datum.entriesToValues ds = vs
  | [], _, rfl => ⟨rfl, [], fun _ _ => rfl, rfl⟩
  | (k, t) :: es, _, h => by
    obtain ⟨key, hk, h⟩ := Option.bind_eq_some_iff.1 h
    obtain ⟨v, hv, h⟩ := Option.bind_eq_some_iff.1 h
    obtain ⟨vs, hvs, h⟩ := Option.bind_eq_some_iff.1 h
    cases h
    obtain ⟨keyReferences, keyEval⟩ := Key.eval_of_constant? hk
    obtain ⟨d, head, rfl⟩ := Term.yields_of_constant? t hv
    obtain ⟨references, ds, eval, rfl⟩ := Term.evalEntries_of_constantEntries? es hvs
    refine ⟨?_, (key, d) :: ds, fun s done => ?_, rfl⟩
    · rw [Term.entryReferences, keyReferences, head.references, references]
      rfl
    · rw [Term.evalEntries, keyEval, head.eval]
      exact eval s _
end

namespace Expression

theorem evaluateWith_eq (e : Expression) (env : Environment) (w : Wording) :
    e.evaluateWith env w = match e.unknownRoots env with
      | [] => e.eval env w
      | unknown => .error (unknown.map Diagnostic.unknownVariable) := by
  cases e <;> rfl

/-- Two expressions that have the same references and evaluate alike. -/
structure Alike (e u : Expression) : Prop where
  references : u.references = e.references
  eval (env : Environment) (w : Wording) : u.eval env w = e.eval env w

namespace Alike
variable {e u x : Expression}

theorem refl (e : Expression) : e.Alike e := ⟨rfl, fun _ _ => rfl⟩

theorem trans (h : e.Alike u) (h' : u.Alike x) : e.Alike x :=
  ⟨h'.references.trans h.references, fun env w => (h'.eval env w).trans (h.eval env w)⟩

/-- The roots are those of the references, so the unknown ones are reported alike. -/
theorem evaluateWith (h : e.Alike u) (env : Environment) (w : Wording) :
    u.evaluateWith env w = e.evaluateWith env w := by
  have unknown : u.unknownRoots env = e.unknownRoots env := by
    simp only [unknownRoots, roots, h.references]
  rw [evaluateWith_eq, evaluateWith_eq, unknown, h.eval]

end Alike

/-- A literal is like the term that it was folded from. -/
theorem alike_ofTerm (t : Term) : (ofTerm t).Alike (.term t) := by
  unfold ofTerm
  cases h : t.constant? with
  | none => exact .refl _
  | some v =>
    obtain ⟨d, yields, rfl⟩ := Term.yields_of_constant? t h
    refine ⟨yields.references, fun env w => ?_⟩
    unfold eval
    rw [yields.eval]

/-- The expression of the parts of a template as they are written; a lone interpolation is the term
inside. -/
def ofWritten : List Part → Expression
  | [.interpolation _ t] => .term t
  | parts => .template parts

theorem eq_of_constantText? {parts : List Part} {text : String}
    (h : constantText? parts = some text) :
    ∃ texts : List String, parts = texts.map .text ∧ text = String.join texts := by
  obtain ⟨texts, written, h⟩ := Option.bind_eq_some_iff.1 h
  cases h
  refine ⟨texts, ?_, rfl⟩
  clear h
  induction parts generalizing texts with
  | nil =>
    cases written
    rfl
  | cons p parts ih =>
    rw [List.mapM_cons] at written
    obtain ⟨t, ht, written⟩ := Option.bind_eq_some_iff.1 written
    obtain ⟨ts, hts, written⟩ := Option.bind_eq_some_iff.1 written
    cases written
    cases p with
    | text =>
      cases ht
      exact congrArg _ (ih ts hts)
    | _ => cases ht

/-- Text without interpolations refers to nothing and keeps all its blanks. -/
theorem evalList_text (texts : List String) :
    Part.listReferences (texts.map .text) = [] ∧
      ∀ s, Part.evalList s ⟨false, false⟩ (texts.map .text) = .ok (String.join texts) := by
  induction texts with
  | nil => exact ⟨rfl, fun _ => rfl⟩
  | cons text texts ih =>
    obtain ⟨references, rest⟩ := ih
    refine ⟨references, fun s => ?_⟩
    have ahead : ((texts.map Part.text).head?.map Part.strip).elim false Strip.left = false := by
      cases texts <;> rfl
    have own : Part.eval s ⟨false, false⟩ (.text text) = .ok text :=
      congrArg Except.ok String.ofList_toList
    rw [List.map_cons, Part.evalList, ahead, own]
    change (do return text ++ (← Part.evalList s ⟨false, false⟩ (texts.map .text))) = _
    rw [rest, String.join_cons]
    rfl

theorem alike_of_constantText? {parts : List Part} {text : String}
    (h : constantText? parts = some text) : (literal (.string text)).Alike (.template parts) := by
  obtain ⟨texts, rfl, rfl⟩ := eq_of_constantText? h
  obtain ⟨references, joined⟩ := evalList_text texts
  refine ⟨references, fun env w => ?_⟩
  unfold eval
  rw [joined]

/-- What is read from the parts of a template is like what they are written as. -/
theorem alike_ofParts {parts : List Part} {e : Expression} (h : ofParts parts = .ok e) :
    e.Alike (ofWritten parts) := by
  unfold ofParts at h
  split at h
  · cases h
  · split at h
    · cases h
      exact alike_ofTerm _
    · rename_i other
      have whole : ofWritten parts = .template parts := by
        unfold ofWritten
        split
        · exact absurd rfl (other _ _)
        · rfl
      rw [whole]
      cases constant : constantText? parts with
      | none =>
        rw [constant] at h
        cases h
        exact .refl _
      | some text =>
        rw [constant] at h
        cases h
        exact alike_of_constantText? constant

section
variable {es us : List Expression} {entries entries' : List (String × Expression)}

theorem literals?_eq_some {vs : List Value} (h : literals? es = some vs) :
    es = vs.map .literal := by
  induction es generalizing vs with
  | nil =>
    cases h
    rfl
  | cons e es ih =>
    rw [literals?, List.mapM_cons] at h
    obtain ⟨v, hv, h⟩ := Option.bind_eq_some_iff.1 h
    obtain ⟨vs, hvs, h⟩ := Option.bind_eq_some_iff.1 h
    cases h
    cases e with
    | literal w =>
      cases hv
      exact congrArg _ (ih hvs)
    | _ => cases hv

theorem alike_tuple (h : List.Forall₂ Alike es us) : (tuple es).Alike (.tuple us) := by
  have items : listReferences us = listReferences es ∧
      ∀ env w, evalList us env w = evalList es env w := by
    induction h with
    | nil => exact ⟨rfl, fun _ _ => rfl⟩
    | cons head _ ih =>
      refine ⟨?_, fun env w => ?_⟩
      · rw [listReferences, listReferences, head.references, ih.1]
      · rw [evalList, evalList, head.eval, ih.2]
  refine ⟨items.1, fun env w => ?_⟩
  unfold eval
  rw [items.2]

theorem alike_object (h : List.Forall₂ (fun e u => u.1 = e.1 ∧ Alike e.2 u.2) entries entries') :
    (object entries).Alike (.object entries') := by
  have items : entryReferences entries' = entryReferences entries ∧
      ∀ env w, evalEntries entries' env w = evalEntries entries env w := by
    induction h with
    | nil => exact ⟨rfl, fun _ _ => rfl⟩
    | cons head _ ih =>
      refine ⟨?_, fun env w => ?_⟩
      · rw [entryReferences, entryReferences, head.2.references, ih.1]
      · rw [evalEntries, evalEntries, head.1, head.2.eval, ih.2]
  refine ⟨items.1, fun env w => ?_⟩
  unfold eval
  rw [items.2]

theorem listReferences_literals (values : List Value) :
    listReferences (values.map .literal) = [] := by
  induction values with
  | nil => rfl
  | cons v values ih => rw [List.map_cons, listReferences, ih]; rfl

theorem evalList_literals (env : Environment) (w : Wording) (values : List Value) :
    evalList (values.map .literal) env w = (values, []) := by
  induction values with
  | nil => rfl
  | cons v values ih => rw [List.map_cons, evalList, ih]; rfl

theorem evalEntries_literals {vs : List Value} (h : entries.map (·.2) = vs.map .literal) :
    entryReferences entries = [] ∧
      ∀ env w, evalEntries entries env w = ((entries.map (·.1)).zip vs, []) := by
  induction entries generalizing vs with
  | nil => exact ⟨rfl, fun _ _ => rfl⟩
  | cons e entries ih =>
    obtain ⟨key, e⟩ := e
    cases vs with
    | nil => cases h
    | cons v vs =>
      obtain ⟨rfl, rest⟩ := List.cons.inj h
      obtain ⟨references, values⟩ := ih rest
      refine ⟨references, fun env w => ?_⟩
      rw [evalEntries, values]
      rfl

/-- A literal list is like the list of its items. -/
theorem alike_ofItems (es : List Expression) : (ofItems es).Alike (.tuple es) := by
  unfold ofItems
  cases constant : literals? es with
  | none => exact .refl _
  | some vs =>
    obtain rfl := literals?_eq_some constant
    refine ⟨listReferences_literals vs, fun env w => ?_⟩
    unfold eval
    rw [evalList_literals]

/-- A literal mapping is like the mapping of its entries, of which the last of a key counts in
both. -/
theorem alike_ofEntries (entries : List (String × Expression)) :
    (ofEntries entries).Alike (.object entries) := by
  unfold ofEntries
  cases constant : literals? (entries.map (·.2)) with
  | none => exact .refl _
  | some vs =>
    obtain ⟨references, values⟩ := evalEntries_literals (literals?_eq_some constant)
    refine ⟨references, fun env w => ?_⟩
    unfold eval
    rw [values]

end

mutual
/-- The expression of a value in which every sequence and every mapping is kept. -/
def tree? : Yaml → Option Expression
  | .sequence items => (listTree? items).map .tuple
  | .mapping entries => (entriesTree? entries).map .object
  | .tagged _ value => tree? value
  | y => (ofYaml default y).toOption

def listTree? : List Yaml → Option (List Expression)
  | [] => some []
  | y :: ys => do return (← tree? y) :: (← listTree? ys)

def entriesTree? : List (Yaml × Yaml) → Option (List (String × Expression))
  | [] => some []
  | (k, v) :: entries => do return (← k.keyText?, ← tree? v) :: (← entriesTree? entries)
end

/-- A text reads alike wherever it stands. -/
theorem tree?_string {location : Location} {s : String} {e : Expression}
    (h : ofYaml location (.string s) = .ok e) : tree? (.string s) = some e := by
  have elsewhere : ofYaml default (.string s) = .ok e := by
    unfold ofYaml at h ⊢
    split at h
    · rename_i marked
      rw [if_pos marked]
      cases read : parseTemplate s with
      | ok u =>
        rw [read] at h
        exact h
      | error =>
        rw [read] at h
        cases h
    · rename_i plain
      rw [if_neg plain]
      exact h
  exact congrArg Except.toOption elsewhere

mutual
/-- What is read from a value is like the expression in which everything is kept. -/
theorem alike_ofYaml : (y : Yaml) → {location : Location} → {e : Expression} →
    ofYaml location y = .ok e → ∃ u, tree? y = some u ∧ e.Alike u
  | .null, _, _, h => ⟨_, rfl, by cases h; exact .refl _⟩
  | .bool _, _, _, h => ⟨_, rfl, by cases h; exact .refl _⟩
  | .int _, _, _, h => ⟨_, rfl, by cases h; exact .refl _⟩
  | .float _, _, _, h => ⟨_, rfl, by cases h; exact .refl _⟩
  | .string _, _, e, h => ⟨e, tree?_string h, .refl e⟩
  | .sequence items, _, _, h => by
    obtain ⟨es, hes, h⟩ := bind_eq_ok.1 h
    cases h
    obtain ⟨us, hus, alike⟩ := alike_listOfYaml items hes
    exact ⟨.tuple us, congrArg (Option.map _) hus, (alike_ofItems es).trans (alike_tuple alike)⟩
  | .mapping entries, _, _, h => by
    obtain ⟨es, hes, h⟩ := bind_eq_ok.1 h
    cases h
    obtain ⟨us, hus, alike⟩ := alike_entriesOfYaml entries hes
    exact ⟨.object us, congrArg (Option.map _) hus, (alike_ofEntries es).trans (alike_object alike)⟩
  | .tagged _ y, _, _, h => alike_ofYaml y h

theorem alike_listOfYaml : (ys : List Yaml) → {location : Location} → {position : Nat} →
    {es : List Expression} → listOfYaml location position ys = .ok es →
    ∃ us, listTree? ys = some us ∧ List.Forall₂ Alike es us
  | [], _, _, _, rfl => ⟨[], rfl, .nil⟩
  | y :: ys, _, _, _, h => by
    obtain ⟨e, he, h⟩ := bind_eq_ok.1 h
    obtain ⟨es, hes, h⟩ := bind_eq_ok.1 h
    cases h
    obtain ⟨u, hu, head⟩ := alike_ofYaml y he
    obtain ⟨us, hus, rest⟩ := alike_listOfYaml ys hes
    exact ⟨u :: us, by rw [listTree?, hu, hus]; rfl, .cons head rest⟩

theorem alike_entriesOfYaml : (entries : List (Yaml × Yaml)) → {location : Location} →
    {es : List (String × Expression)} → entriesOfYaml location entries = .ok es →
    ∃ us, entriesTree? entries = some us ∧
      List.Forall₂ (fun e u => u.1 = e.1 ∧ Alike e.2 u.2) es us
  | [], _, _, rfl => ⟨[], rfl, .nil⟩
  | (k, v) :: entries, _, _, h => by
    rw [entriesOfYaml] at h
    cases hk : k.keyText? with
    | none =>
      rw [hk] at h
      cases h
    | some key =>
      rw [hk] at h
      obtain ⟨e, he, h⟩ := bind_eq_ok.1 h
      obtain ⟨es, hes, h⟩ := bind_eq_ok.1 h
      cases h
      obtain ⟨u, hu, head⟩ := alike_ofYaml v he
      obtain ⟨us, hus, rest⟩ := alike_entriesOfYaml entries hes
      exact ⟨(key, u) :: us, by rw [entriesTree?, hk, hu, hus]; rfl, .cons ⟨rfl, head⟩ rest⟩
end

/-- The folding of constants cannot be observed. A term or template that reads as a literal refers
to nothing as it is written and has that value in every environment. What is read from a value has
the references of the tree in which every sequence and mapping is kept, and in every environment its
value or its reports, however these are worded. -/
theorem folding_unobservable :
    (∀ (t : Term) (v : Value), ofTerm t = .literal v →
      (term t).references = [] ∧ ∀ env, (term t).evaluate env = .ok v) ∧
    (∀ (parts : List Part) (v : Value), ofParts parts = .ok (.literal v) →
      (ofWritten parts).references = [] ∧ ∀ env, (ofWritten parts).evaluate env = .ok v) ∧
    ∀ (location : Location) (y : Yaml) (e : Expression), ofYaml location y = .ok e →
      ∃ u, tree? y = some u ∧ u.references = e.references ∧
        ∀ env w, u.evaluateWith env w = e.evaluateWith env w := by
  refine ⟨fun t v h => ?_, fun parts v h => ?_, fun location y e h => ?_⟩
  · have alike := h ▸ alike_ofTerm t
    exact ⟨alike.references, fun env => alike.evaluateWith env .brief⟩
  · have alike := alike_ofParts h
    exact ⟨alike.references, fun env => alike.evaluateWith env .brief⟩
  · obtain ⟨u, read, alike⟩ := alike_ofYaml y h
    exact ⟨u, read, alike.references, alike.evaluateWith⟩

/-- A reference beside a constant mapping of which two keys are spelled alike. -/
def respelledKeys : Yaml :=
  .sequence [.string "$\x7bx\x7d", .mapping [(.int 1, .null), (.string "1", .bool true)]]

theorem folding_unobservable_respelledKeys :
    (∀ env, (term (.object [(.name "a", .null), (.computed (.string "a"), .bool true)])).evaluate
      env = .ok (.map [("a", .bool true)])) ∧
    (∀ env, (ofWritten [.text "a", .text "b"]).evaluate env = .ok (.string "ab")) ∧
    ∃ u, tree? respelledKeys = some u ∧ u.roots = ["x"] ∧
      u.evaluate ⟨[("x", .null)]⟩ = .ok (.list [.null, .map [("1", .bool true)]]) := by
  refine ⟨(folding_unobservable.1 _ _ rfl).2, (folding_unobservable.2.1 _ _ rfl).2, ?_⟩
  have read : ofYaml default respelledKeys =
      .ok (.tuple [.term (.variable "x"), .literal (.map [("1", .bool true)])]) := by
    with_unfolding_all rfl
  obtain ⟨u, kept, references, values⟩ := folding_unobservable.2.2 _ _ _ read
  refine ⟨u, kept, ?_, ?_⟩
  · rw [roots, references]
    rfl
  · rw [evaluate, values]
    rfl

end Expression
end PipelineResolution
