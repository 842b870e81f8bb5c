import PipelineResolution.Proofs.Document.Layout

/-!
# Labels of decoded blocks

Some reports ask for a label that a block does not have. Decoding a document gives every block the
labels of its shape, and asks for a label of a mapping before there is a block, so none of its
reports is one of these.
-/
namespace PipelineResolution

/-- What the decoders of pipelines and triggers say about a block without the labels it needs. -/
def Diagnostic.labelSummaries : List String := ["Missing name for pipeline",
  "Missing name for param", "Missing name for output", "Invalid step block",
  "Invalid trigger block", "Missing capture type"]

/-- A report that a block lacks a label. -/
def Diagnostic.AsksLabel (d : Diagnostic) : Prop := d.summary ∈ labelSummaries

instance (d : Diagnostic) : Decidable d.AsksLabel :=
  inferInstanceAs (Decidable (d.summary ∈ Diagnostic.labelSummaries))

def Diagnostics.AsksNoLabel (ds : Diagnostics) : Prop := ∀ d ∈ ds, ¬d.AsksLabel

instance (ds : Diagnostics) : Decidable ds.AsksNoLabel :=
  inferInstanceAs (Decidable (∀ d ∈ (ds : List Diagnostic), ¬d.AsksLabel))

namespace Diagnostic
variable {summary detail : String} {d : Diagnostic} {l : Location}

@[simp] theorem asksLabel_error : (error summary detail).AsksLabel ↔ summary ∈ labelSummaries :=
  Iff.rfl

@[simp] theorem asksLabel_validation :
    (validation summary detail).AsksLabel ↔ summary ∈ labelSummaries := Iff.rfl

@[simp] theorem asksLabel_about : (d.about l).AsksLabel ↔ d.AsksLabel := Iff.rfl

@[simp] theorem asksLabel_orAbout : (d.orAbout l).AsksLabel ↔ d.AsksLabel := Iff.rfl

end Diagnostic

namespace Diagnostics
variable {σ α : Type} {a b ds : Diagnostics} {d : Diagnostic} {l : Location}

@[simp] theorem asksNoLabel_nil : AsksNoLabel [] := fun _ h => nomatch h

@[simp] theorem asksNoLabel_cons : AsksNoLabel (d :: ds) ↔ ¬d.AsksLabel ∧ ds.AsksNoLabel :=
  List.forall_mem_cons

@[simp] theorem asksNoLabel_append :
    AsksNoLabel (a ++ b) ↔ a.AsksNoLabel ∧ b.AsksNoLabel := List.forall_mem_append

@[simp] theorem asksNoLabel_orAbout : (ds.orAbout l).AsksNoLabel ↔ ds.AsksNoLabel :=
  List.forall_mem_map

theorem asksNoLabel_map {as : List α} {f : α → Diagnostic} :
    AsksNoLabel (as.map f) ↔ ∀ a ∈ as, ¬(f a).AsksLabel := List.forall_mem_map

theorem asksNoLabel_flatMap {as : List α} {f : α → Diagnostics} :
    AsksNoLabel (as.flatMap f) ↔ ∀ a ∈ as, (f a).AsksNoLabel := by
  simp only [AsksNoLabel, List.mem_flatMap]
  exact ⟨fun h a ha d hd => h d ⟨a, ha, hd⟩, fun h d ⟨a, ha, hd⟩ => h a ha d hd⟩

/-- What is gathered asks for no label if no step of it does. -/
theorem asksNoLabel_gather {f : σ → α → σ × Diagnostics} {as : List α}
    (h : ∀ s, ∀ a ∈ as, (f s a).2.AsksNoLabel) (s : σ) : (gather f s as).2.AsksNoLabel := by
  induction as generalizing s with
  | nil => exact asksNoLabel_nil
  | cons a as ih =>
    obtain ⟨first, rest⟩ := forall_and.1 fun s => List.forall_mem_cons.1 (h s)
    exact asksNoLabel_append.2 ⟨first s, ih rest _⟩

end Diagnostics

/-- A failure that asks for no label. -/
def SparesLabels {α : Type} (x : Except Diagnostics α) : Prop :=
  ∀ ds, x = .error ds → ds.AsksNoLabel

section
variable {α β : Type} {ds : Diagnostics}

@[simp] theorem sparesLabels_ok {a : α} : SparesLabels (.ok a) := fun _ h => nomatch h

@[simp] theorem sparesLabels_error : SparesLabels (.error ds : Except Diagnostics α) ↔
    ds.AsksNoLabel :=
  ⟨fun h => h ds rfl, fun h _ e => by cases e; exact h⟩

theorem Diagnostics.AsksNoLabel.orValue (h : ds.AsksNoLabel) (a : α) :
    SparesLabels (ds.orValue a) := by
  unfold Diagnostics.orValue
  split
  · exact sparesLabels_error.2 h
  · exact sparesLabels_ok

theorem SparesLabels.map {x : Except Diagnostics α} (h : SparesLabels x) (f : α → β) :
    SparesLabels (x.map f) := by
  cases x with
  | ok a => exact sparesLabels_ok
  | error ds => exact sparesLabels_error.2 (h ds rfl)

end

theorem Expression.asksNoLabel_ofYaml {location : Location} {y : Yaml} {d : Diagnostic}
    (h : Expression.ofYaml location y = .error d) : ¬d.AsksLabel := by
  rcases (Expression.report_of_ofYaml location y h).2 with summary | summary <;>
    simp [Diagnostic.AsksLabel, summary, Diagnostic.labelSummaries]

/-- An item that asks for no label, with all that is inside. -/
def BodyItem.SparesLabels : BodyItem → Prop
  | .attribute _ => True
  | .block b => b.allDiagnostics.AsksNoLabel
  | .problem d => ¬d.AsksLabel

namespace Block

theorem Conforms.length_labels {parent : String} {b : Block} (h : Conforms parent b) {shape : Shape}
    (opened : Shape.of? parent b.type = some shape) : b.labels.length = shape.depth := by
  obtain ⟨shape', opened', labels, -, -⟩ := h
  cases opened.symm.trans opened'
  exact labels

variable {type key : String} {labels : List String} {location : Location} {items : List BodyItem}

theorem asksNoLabel_listDiagnostics {bs : List Block}
    (h : ∀ b ∈ bs, b.allDiagnostics.AsksNoLabel) : (listDiagnostics bs).AsksNoLabel := by
  induction bs with
  | nil => exact Diagnostics.asksNoLabel_nil
  | cons b bs ih =>
    obtain ⟨hb, hbs⟩ := List.forall_mem_cons.1 h
    rw [listDiagnostics]
    exact Diagnostics.asksNoLabel_append.2 ⟨hb, ih hbs⟩

theorem asksNoLabel_ofItems (h : ∀ i ∈ items, i.SparesLabels) :
    (ofItems type labels location items).allDiagnostics.AsksNoLabel := by
  unfold ofItems
  rw [allDiagnostics]
  refine Diagnostics.asksNoLabel_append.2 ⟨fun d hd => ?_, asksNoLabel_listDiagnostics fun b hb => ?_⟩
  · obtain ⟨_ | b | d', hi, found⟩ := List.mem_filterMap.1 hd <;> cases found
    exact h _ hi
  · obtain ⟨_ | b' | d, hi, found⟩ := List.mem_filterMap.1 hb <;> cases found
    exact h _ hi

theorem sparesLabels_missingLabel {more : Nat} : (missingLabel type more location).SparesLabels := by
  simp [missingLabel, BodyItem.SparesLabels, Diagnostic.labelSummaries]

theorem asksNoLabel_withoutBody : (withoutBody type labels location).allDiagnostics.AsksNoLabel := by
  refine asksNoLabel_ofItems (List.forall_mem_singleton.2 ?_)
  simp [BodyItem.SparesLabels, Diagnostic.labelSummaries]

theorem sparesLabels_attributeItem (name : String) (location : Location) (y : Yaml) :
    (attributeItem name location y).SparesLabels := by
  unfold attributeItem
  cases he : Expression.ofYaml location y with
  | ok e => exact trivial
  | error d => exact Expression.asksNoLabel_ofYaml he

-- A mapping that has no labels is reported where a block would stand, so no block comes of it.
mutual
theorem sparesLabels_itemsOfBody (type : String) (location : Location)
    (entries : List (Yaml × Yaml)) : ∀ i ∈ itemsOfBody type location entries, i.SparesLabels := by
  intro i hi
  unfold itemsOfBody at hi
  split at hi
  · cases hi
  · rename_i k v entries
    rcases List.mem_append.1 hi with hi | hi
    · split at hi
      · rw [List.mem_singleton.1 hi]
        simp [problemAt, BodyItem.SparesLabels, Diagnostic.labelSummaries]
      · rename_i key _
        exact sparesLabels_itemsOfEntry type key _ v i hi
    · exact sparesLabels_itemsOfBody type location entries i hi
termination_by sizeOf entries

theorem sparesLabels_itemsOfEntry (type key : String) (location : Location) (y : Yaml) :
    ∀ i ∈ itemsOfEntry type key location y, i.SparesLabels := by
  intro i hi
  unfold itemsOfEntry at hi
  split at hi
  · rename_i entries
    split at hi
    · rw [List.mem_singleton.1 hi]
      exact asksNoLabel_ofItems (sparesLabels_itemsOfBody key location entries)
    · rename_i n _
      exact sparesLabels_itemsOfLabels key n [] location entries i hi
    · rw [List.mem_singleton.1 hi]
      exact asksNoLabel_ofItems (sparesLabels_itemsOfBody key (location.child "0") entries)
    · rw [List.mem_singleton.1 hi]
      exact sparesLabels_attributeItem ..
  · rename_i items
    split at hi
    · exact sparesLabels_itemsOfSequence key location 0 items i hi
    · rw [List.mem_singleton.1 hi]
      exact sparesLabels_attributeItem ..
  · rw [List.mem_singleton.1 hi]
    exact sparesLabels_attributeItem ..
termination_by sizeOf y

theorem sparesLabels_itemsOfSequence (type : String) (location : Location) (position : Nat)
    (ys : List Yaml) : ∀ i ∈ itemsOfSequence type location position ys, i.SparesLabels := by
  intro i hi
  unfold itemsOfSequence at hi
  split at hi
  · cases hi
  · rename_i y ys
    rcases List.mem_cons.1 hi with rfl | hi
    · exact asksNoLabel_ofYaml type _ y
    · exact sparesLabels_itemsOfSequence type location (position + 1) ys i hi
termination_by sizeOf ys

theorem asksNoLabel_ofYaml (type : String) (location : Location) (y : Yaml) :
    (ofYaml type location y).allDiagnostics.AsksNoLabel := by
  unfold ofYaml
  split
  · exact asksNoLabel_ofItems fun _ hi => nomatch hi
  · exact asksNoLabel_ofItems fun _ hi => nomatch hi
  · rename_i entries
    exact asksNoLabel_ofItems (sparesLabels_itemsOfBody type location entries)
  · exact asksNoLabel_withoutBody
termination_by sizeOf y

theorem sparesLabels_itemsOfLabels (type : String) (more : Nat) (labels : List String)
    (location : Location) (entries : List (Yaml × Yaml)) :
    ∀ i ∈ itemsOfLabels type more labels location entries, i.SparesLabels := by
  intro i hi
  unfold itemsOfLabels at hi
  split at hi
  · cases hi
  · rename_i k v entries
    rcases List.mem_append.1 hi with hi | hi
    · split at hi
      · rw [List.mem_singleton.1 hi]
        simp [problemAt, BodyItem.SparesLabels, Diagnostic.labelSummaries]
      · rename_i label _
        exact sparesLabels_itemsOfLabeled type more (labels ++ [label]) _ v i hi
    · exact sparesLabels_itemsOfLabels type more labels location entries i hi
termination_by sizeOf entries

theorem sparesLabels_itemsOfLabeled (type : String) (more : Nat) (labels : List String)
    (location : Location) (y : Yaml) :
    ∀ i ∈ itemsOfLabeled type more labels location y, i.SparesLabels := by
  intro i hi
  unfold itemsOfLabeled at hi
  split at hi
  · rename_i entries
    split at hi
    · rw [List.mem_singleton.1 hi]
      exact asksNoLabel_ofItems (sparesLabels_itemsOfBody type location entries)
    · rename_i n
      exact sparesLabels_itemsOfLabels type n labels location entries i hi
  · split at hi <;> rw [List.mem_singleton.1 hi]
    · exact asksNoLabel_ofItems fun _ hi => nomatch hi
    · exact sparesLabels_missingLabel
  · split at hi <;> rw [List.mem_singleton.1 hi]
    · exact asksNoLabel_ofItems fun _ hi => nomatch hi
    · exact sparesLabels_missingLabel
  · split at hi <;> rw [List.mem_singleton.1 hi]
    · exact asksNoLabel_withoutBody
    · exact sparesLabels_missingLabel
termination_by sizeOf y
end

end Block

/-- What decoding reports asks for no label, neither at the root nor inside a block. -/
structure Document.SparesLabels (d : Document) : Prop where
  blocks : ∀ b ∈ d.blocks, b.allDiagnostics.AsksNoLabel
  diagnostics : d.diagnostics.AsksNoLabel

theorem Document.sparesLabels_of_decode {text : String} {file : Option String} {d : Document}
    (decoded : decode text file = .ok d) : d.SparesLabels := by
  unfold decode at decoded
  split at decoded
  · unfold ofYaml at decoded
    split at decoded
    · cases decoded
      exact ⟨fun _ hb => (nomatch hb), Diagnostics.asksNoLabel_nil⟩
    · rename_i entries _
      cases decoded
      let location : Location := ⟨file, ""⟩
      have items := Block.sparesLabels_itemsOfBody "" location entries
      refine ⟨fun b hb => ?_, Diagnostics.asksNoLabel_append.2 ⟨fun r hr => ?_, ?_⟩⟩
      · obtain ⟨_ | b' | _, hi, found⟩ := List.mem_filterMap.1 hb <;> cases found
        exact items _ hi
      · obtain ⟨_ | _ | r', hi, found⟩ := List.mem_filterMap.1 hr <;> cases found
        exact items _ hi
      · refine Diagnostics.asksNoLabel_map.2 fun a _ => ?_
        simp [unexpectedAttribute, Diagnostic.labelSummaries]
    · cases decoded
  · cases decoded

end PipelineResolution
