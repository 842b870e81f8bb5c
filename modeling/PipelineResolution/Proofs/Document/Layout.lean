import PipelineResolution.Proofs.Failing
import PipelineResolution.Document.Decode

/-!
# The layout of decoded documents

What a document decodes to is laid out as the shapes of its blocks say: inner blocks are of a type
that their parent takes, with one label for each level of their shape. Whatever was reported on the
way is an error.
-/
namespace PipelineResolution

/-- How many labels the blocks of a shape have. -/
def Shape.depth : Shape → Nat
  | .labeled n => n
  | .repeated => 0

/-- A block stands where a block of its type may stand, and so do all blocks inside. -/
inductive Block.Conforms : String → Block → Prop where
  | intro {parent : String} {b : Block} (shape : Shape)
      (opened : Shape.of? parent b.type = some shape) (labels : b.labels.length = shape.depth)
      (errors : ∀ d ∈ b.diagnostics, d.isError = true)
      (inner : ∀ i ∈ b.blocks, Conforms b.type i) : Conforms parent b

/-- An item that a block of a type may have; a report is an error. -/
def BodyItem.Conforms (type : String) : BodyItem → Prop
  | .attribute _ => True
  | .block b => b.Conforms type
  | .problem d => d.isError = true

/-- An error about a text that is no expression or a mapping with a key that is no text. -/
def Diagnostic.OnExpression (d : Diagnostic) : Prop :=
  d.isError = true ∧ (d.summary = "Invalid expression" ∨ d.summary = "Invalid key")

section
variable {d : Diagnostic}

mutual
theorem Expression.report_of_ofYaml (location : Location) (y : Yaml)
    (h : Expression.ofYaml location y = .error d) : d.OnExpression := by
  unfold Expression.ofYaml at h
  split at h
  · cases h
  · cases h
  · cases h
  · cases h
  · split at h
    · split at h <;> cases h
      exact ⟨rfl, .inl rfl⟩
    · cases h
  · rename_i items
    rcases bind_eq_error.1 h with h | ⟨es, -, h⟩
    · exact Expression.report_of_listOfYaml location 0 items h
    · cases h
  · rename_i entries
    rcases bind_eq_error.1 h with h | ⟨es, -, h⟩
    · exact Expression.report_of_entriesOfYaml location entries h
    · cases h
  · rename_i y
    exact Expression.report_of_ofYaml location y h
termination_by sizeOf y

theorem Expression.report_of_listOfYaml (location : Location) (position : Nat)
    (items : List Yaml) (h : Expression.listOfYaml location position items = .error d) :
    d.OnExpression := by
  unfold Expression.listOfYaml at h
  split at h
  · cases h
  · rename_i y ys
    rcases bind_eq_error.1 h with h | ⟨e, -, h⟩
    · exact Expression.report_of_ofYaml _ y h
    · rcases bind_eq_error.1 h with h | ⟨es, -, h⟩
      · exact Expression.report_of_listOfYaml location (position + 1) ys h
      · cases h
termination_by sizeOf items

theorem Expression.report_of_entriesOfYaml (location : Location) (entries : List (Yaml × Yaml))
    (h : Expression.entriesOfYaml location entries = .error d) : d.OnExpression := by
  unfold Expression.entriesOfYaml at h
  split at h
  · cases h
  · rename_i k v entries
    split at h
    · cases h
      exact ⟨rfl, .inr rfl⟩
    · rename_i key _
      rcases bind_eq_error.1 h with h | ⟨e, -, h⟩
      · exact Expression.report_of_ofYaml _ v h
      · rcases bind_eq_error.1 h with h | ⟨es, -, h⟩
        · exact Expression.report_of_entriesOfYaml location entries h
        · cases h
termination_by sizeOf entries
end
end

namespace Block
variable {parent type key : String} {labels : List String} {location : Location}
  {items : List BodyItem}

theorem blocks_ofItems (labels : List String) (location : Location)
    (h : ∀ i ∈ items, i.Conforms type) :
    ∀ b ∈ (ofItems type labels location items).blocks, b.Conforms type := by
  intro b hb
  obtain ⟨_ | b' | d, hi, found⟩ := List.mem_filterMap.1 hb <;> cases found
  exact h _ hi

theorem isError_ofItems (labels : List String) (location : Location)
    (h : ∀ i ∈ items, i.Conforms type) :
    ∀ d ∈ (ofItems type labels location items).diagnostics, d.isError = true := by
  intro d hd
  obtain ⟨_ | b | d', hi, found⟩ := List.mem_filterMap.1 hd <;> cases found
  exact h _ hi

theorem conforms_ofItems {shape : Shape} (opened : Shape.of? parent type = some shape)
    (depth : labels.length = shape.depth) (h : ∀ i ∈ items, i.Conforms type) :
    Conforms parent (ofItems type labels location items) :=
  ⟨shape, opened, depth, isError_ofItems labels location h, blocks_ofItems labels location h⟩

theorem conforms_problemAt {summary detail : String} :
    (problemAt summary detail location).Conforms type := by
  unfold problemAt BodyItem.Conforms
  rfl

theorem conforms_missingLabel {more : Nat} : (missingLabel key more location).Conforms type :=
  conforms_problemAt

theorem conforms_withoutBody {shape : Shape} (opened : Shape.of? parent type = some shape)
    (depth : labels.length = shape.depth) :
    Conforms parent (withoutBody type labels location) :=
  conforms_ofItems opened depth (List.forall_mem_singleton.2 conforms_problemAt)

theorem conforms_attributeItem (name : String) (location : Location) (y : Yaml) :
    (attributeItem name location y).Conforms type := by
  unfold attributeItem
  cases he : Expression.ofYaml location y with
  | ok e => exact trivial
  | error d => exact (Expression.report_of_ofYaml location y he).1

-- The shape that opened a key says how many labels are still to come, and each mapping gives one.
mutual
theorem conforms_itemsOfBody (type : String) (location : Location) (entries : List (Yaml × Yaml)) :
    ∀ i ∈ itemsOfBody type location entries, i.Conforms type := by
  intro i hi
  unfold itemsOfBody at hi
  split at hi
  · cases hi
  · rename_i k v entries
    rcases List.mem_append.1 hi with hi | hi
    · split at hi
      · rw [List.mem_singleton.1 hi]
        exact conforms_problemAt
      · rename_i key _
        exact conforms_itemsOfEntry type key _ v i hi
    · exact conforms_itemsOfBody type location entries i hi
termination_by sizeOf entries

theorem conforms_itemsOfEntry (type key : String) (location : Location) (y : Yaml) :
    ∀ i ∈ itemsOfEntry type key location y, i.Conforms type := by
  intro i hi
  unfold itemsOfEntry at hi
  split at hi
  · rename_i entries
    split at hi
    · rename_i opened
      rw [List.mem_singleton.1 hi]
      exact conforms_ofItems opened rfl (conforms_itemsOfBody key location entries)
    · rename_i n opened
      exact conforms_itemsOfLabels opened n [] (Nat.zero_add _) location entries i hi
    · rename_i opened
      rw [List.mem_singleton.1 hi]
      exact conforms_ofItems opened rfl (conforms_itemsOfBody key (location.child "0") entries)
    · rw [List.mem_singleton.1 hi]
      exact conforms_attributeItem ..
  · rename_i items
    split at hi
    · rename_i opened
      exact conforms_itemsOfSequence opened location 0 items i hi
    · rw [List.mem_singleton.1 hi]
      exact conforms_attributeItem ..
  · rw [List.mem_singleton.1 hi]
    exact conforms_attributeItem ..
termination_by sizeOf y

theorem conforms_itemsOfSequence {parent type : String}
    (opened : Shape.of? parent type = some .repeated) (location : Location) (position : Nat)
    (ys : List Yaml) : ∀ i ∈ itemsOfSequence type location position ys, i.Conforms parent := by
  intro i hi
  unfold itemsOfSequence at hi
  split at hi
  · cases hi
  · rename_i y ys
    rcases List.mem_cons.1 hi with rfl | hi
    · exact conforms_ofYaml opened _ y
    · exact conforms_itemsOfSequence opened location (position + 1) ys i hi
termination_by sizeOf ys

theorem conforms_ofYaml {parent type : String} (opened : Shape.of? parent type = some .repeated)
    (location : Location) (y : Yaml) : Conforms parent (ofYaml type location y) := by
  unfold ofYaml
  split
  · exact conforms_ofItems opened rfl fun _ hi => nomatch hi
  · exact conforms_ofItems opened rfl fun _ hi => nomatch hi
  · rename_i entries
    exact conforms_ofItems opened rfl (conforms_itemsOfBody type location entries)
  · exact conforms_withoutBody opened rfl
termination_by sizeOf y

theorem conforms_itemsOfLabels {parent type : String} {depth : Nat}
    (opened : Shape.of? parent type = some (.labeled depth)) (more : Nat) (labels : List String)
    (left : labels.length + (more + 1) = depth) (location : Location)
    (entries : List (Yaml × Yaml)) :
    ∀ i ∈ itemsOfLabels type more labels location entries, i.Conforms parent := by
  intro i hi
  unfold itemsOfLabels at hi
  split at hi
  · cases hi
  · rename_i k v entries
    rcases List.mem_append.1 hi with hi | hi
    · split at hi
      · rw [List.mem_singleton.1 hi]
        exact conforms_problemAt
      · rename_i label _
        refine conforms_itemsOfLabeled opened more (labels ++ [label]) ?_ _ v i hi
        rw [List.length_append, List.length_singleton]
        omega
    · exact conforms_itemsOfLabels opened more labels left location entries i hi
termination_by sizeOf entries

theorem conforms_itemsOfLabeled {parent type : String} {depth : Nat}
    (opened : Shape.of? parent type = some (.labeled depth)) (more : Nat) (labels : List String)
    (left : labels.length + more = depth) (location : Location) (y : Yaml) :
    ∀ i ∈ itemsOfLabeled type more labels location y, i.Conforms parent := by
  intro i hi
  unfold itemsOfLabeled at hi
  split at hi
  · rename_i entries
    split at hi
    · rw [List.mem_singleton.1 hi]
      exact conforms_ofItems opened left (conforms_itemsOfBody type location entries)
    · rename_i n
      exact conforms_itemsOfLabels opened n labels left location entries i hi
  · split at hi <;> rw [List.mem_singleton.1 hi]
    · exact conforms_ofItems opened left fun _ hi => nomatch hi
    · exact conforms_missingLabel
  · split at hi <;> rw [List.mem_singleton.1 hi]
    · exact conforms_ofItems opened left fun _ hi => nomatch hi
    · exact conforms_missingLabel
  · split at hi <;> rw [List.mem_singleton.1 hi]
    · exact conforms_withoutBody opened left
    · exact conforms_missingLabel
termination_by sizeOf y
end

theorem Conforms.errors {b : Block} (h : Conforms parent b) :
    ∀ d ∈ b.diagnostics, d.isError = true := by
  cases h
  assumption

theorem Conforms.inner {b : Block} (h : Conforms parent b) : ∀ i ∈ b.blocks, Conforms b.type i := by
  cases h
  assumption

/-- At the root of a document stand pipelines with one label and triggers with two. -/
theorem Conforms.root {b : Block} (h : Conforms "" b) :
    b.type = "pipeline" ∧ b.labels.length = 1 ∨ b.type = "trigger" ∧ b.labels.length = 2 := by
  obtain ⟨shape, opened, labels, -, -⟩ := h
  unfold Shape.of? at opened
  split at opened <;> rename_i root type <;> cases opened
  · exact .inl ⟨type, labels⟩
  · exact .inr ⟨type, labels⟩
  all_goals exact absurd root (by decide)

mutual
/-- All that was reported on a block that stands where it may is an error. -/
theorem Conforms.isError {parent : String} :
    ∀ {b : Block}, Conforms parent b → ∀ d ∈ b.allDiagnostics, d.isError = true
  | ⟨_, _, _, _, _, _⟩, h, d, hd => by
    unfold allDiagnostics at hd
    rcases List.mem_append.1 hd with hd | hd
    · exact h.errors d hd
    · exact isError_listDiagnostics h.inner d hd

theorem isError_listDiagnostics {parent : String} :
    ∀ {bs : List Block}, (∀ b ∈ bs, Conforms parent b) → ∀ d ∈ listDiagnostics bs, d.isError = true
  | [], _, _, hd => nomatch hd
  | _ :: _, h, d, hd => by
    unfold listDiagnostics at hd
    obtain ⟨hb, hbs⟩ := List.forall_mem_cons.1 h
    rcases List.mem_append.1 hd with hd | hd
    · exact hb.isError d hd
    · exact isError_listDiagnostics hbs d hd
end

end Block

namespace Document

/-- Every block of the document may stand at its root, and all reports on the root are errors. -/
structure Conforms (d : Document) : Prop where
  blocks : ∀ b ∈ d.blocks, b.Conforms ""
  errors : ∀ r ∈ d.diagnostics, r.isError = true

theorem conforms_ofYaml {file : Option String} {y : Yaml} {d : Document}
    (decoded : ofYaml file y = .ok d) : d.Conforms := by
  unfold ofYaml at decoded
  split at decoded
  · cases decoded
    exact ⟨fun _ hb => (nomatch hb), fun _ hr => nomatch hr⟩
  · rename_i entries
    cases decoded
    let location : Location := ⟨file, ""⟩
    have items := Block.conforms_itemsOfBody "" location entries
    refine ⟨Block.blocks_ofItems [] location items, fun r hr => ?_⟩
    rcases List.mem_append.1 hr with hr | hr
    · exact Block.isError_ofItems [] location items r hr
    · obtain ⟨a, -, rfl⟩ := List.mem_map.1 hr
      rfl
  · cases decoded

theorem conforms_of_decode {text : String} {file : Option String} {d : Document}
    (decoded : decode text file = .ok d) : d.Conforms := by
  unfold decode at decoded
  split at decoded
  · exact conforms_ofYaml decoded
  · cases decoded

end Document
end PipelineResolution
