import PipelineResolution.Proofs.Expression.Folding
import PipelineResolution.Proofs.Resolution.Deferral
import PipelineResolution.Proofs.Step.Exact

/-!
# Explicit dependencies

An author lists the steps that a step waits for as texts or as references. Texts become edges when
the list has its value, references when the list has to wait. A list that waits is not looked at
again, so a text beside a reference is lost; a list of one form keeps all its entries.
-/
namespace PipelineResolution

/-- A list of expressions, as it stands or as a document holds it. -/
def Expression.IsListOf (e : Expression) (items : List Expression) : Prop :=
  e = .tuple items ∨ e = .ofItems items

namespace Expression
variable {e : Expression} {items : List Expression}

theorem literals?_map (values : List Value) : literals? (values.map .literal) = some values := by
  unfold literals?
  induction values with
  | nil => rfl
  | cons v values ih => rw [List.map_cons, List.mapM_cons, ih]; rfl

theorem literals?_eq_none {item : Expression} (hi : item ∈ items)
    (waits : item.isLiteral = false) : literals? items = none := by
  unfold literals?
  induction items with
  | nil => nomatch hi
  | cons first items ih =>
    rw [List.mapM_cons]
    rcases List.mem_cons.1 hi with rfl | hi
    · cases item <;> first | rfl | cases waits
    · rw [ih hi]
      cases first <;> rfl

theorem IsListOf.eq_tuple (h : e.IsListOf items) {item : Expression} (hi : item ∈ items)
    (waits : item.isLiteral = false) : e = .tuple items := by
  rcases h with h | h
  · exact h
  · rw [h, ofItems, literals?_eq_none hi waits]

/-- A list of literals has its value when the document is read. -/
theorem IsListOf.resolve_literals {values : List Value} (h : e.IsListOf (values.map .literal))
    (location : Location) (ctx : ResolutionContext) :
    e.resolve location ctx = .resolved (.list values) := by
  rcases h with rfl | rfl
  · have value : (tuple (values.map .literal)).evaluate ctx.environment = .ok (.list values) := by
      simp [evaluate, evaluateWith, unknownRoots, roots, firstOccurrences, references,
        listReferences_literals, eval, evalList_literals]
    have constant : (tuple (values.map .literal)).usesParam = false := by
      simp [usesParam, references, listReferences_literals]
    simp [resolve_of_evaluate value, constant]
  · rw [ofItems, literals?_map]
    rfl

end Expression

namespace Step
/-- A text that names a step, with `step.` in front or without. -/
structure StepText where
  rooted : Bool
  kind : StepKind
  name : String

def StepText.target (t : StepText) : String := Keyword.spell t.kind ++ "." ++ t.name

def StepText.text (t : StepText) : String := if t.rooted then "step." ++ t.target else t.target

/-- An entry of an explicit list. -/
inductive Entry where
  | text (t : StepText)
  /-- The reference `step.<kind>.<name>`. -/
  | reference (kind name : String)

namespace Entry

def target : Entry → String
  | .text t => t.target
  | .reference kind name => kind ++ "." ++ name

def expression : Entry → Expression
  | .text t => .literal (.string t.text)
  | .reference kind name => .term (.access (.variable "step") [.member kind, .member name])

/-- The reference that an entry is. -/
def references : Entry → List Reference
  | .text _ => []
  | .reference kind name => [⟨"step", [kind, name]⟩]

theorem references_expression (entry : Entry) : entry.expression.references = entry.references := by
  cases entry <;> rfl

/-- The entries as a document spells them. -/
example : Expression.ofYaml default
    (.sequence [.string "step.http.a", .string "$\x7bstep.http.b\x7d"]) =
      .ok (.tuple ([text ⟨true, .http, "a"⟩, reference "http" "b"].map expression)) := by
  with_unfolding_all rfl

/-- Decoding a step keeps references while `step` is unbound, and texts where the list holds no
reference. -/
def Kept (env : Environment) (entries : List Entry) : Entry → Prop
  | .text _ => ∀ kind name, .reference kind name ∉ entries
  | .reference _ _ => env.binds "step" = false

end Entry

theorem targetOfText_text (t : StepText) : targetOfText t.text = t.target := by
  obtain ⟨_ | _, kind, name⟩ := t
  · have plain : Text.dropStart? "step." (Keyword.spell kind ++ "." ++ name) = none := by
      rw [Text.dropStart?, String.toList_append, String.toList_append]
      cases kind <;> rfl
    rw [targetOfText, StepText.text, if_neg Bool.false_ne_true, StepText.target, plain]
    rfl
  · rw [targetOfText, StepText.text, if_pos rfl, Text.dropStart?_self]
    rfl

variable {s : Step} {b : Block} {a : Attribute} {pipeline target : String}
  {ctx : ResolutionContext}

/-- An edge that one attribute brings in stays to the end, unless it leads to the step itself. -/
theorem mem_of_setAttribute (accepted : ofBlock b pipeline ctx = .ok s) (ha : a ∈ b.attributes)
    (reach : ∀ s' : Step, (setAttribute ctx s' a).2.hasErrors = false →
      (⟨.step, target⟩ : Edge) ∈ (setAttribute ctx s' a).1.dependencies)
    (other : target ≠ s.fullName) : target ∈ s.dependencies.steps := by
  obtain ⟨word, name, kind, -, -, taken, -, rfl⟩ := exists_of_ofBlock accepted
  simp only [takeIn, Diagnostics.hasErrors_append, Bool.or_eq_false_iff] at taken
  have grows := grows_mem ⟨.step, target⟩
  have attributes : (⟨.step, target⟩ : Edge) ∈
      ((start b kind name pipeline).setAttributes b ctx).1.dependencies :=
    Diagnostics.gather_reaches (I := fun s : Step => (⟨.step, target⟩ : Edge) ∈ s.dependencies)
      grows.setAttribute reach ha taken.1
  exact List.mem_filter.2 ⟨grows.setBlocks b attributes, bne_iff_ne.2 other⟩

theorem mem_of_awaited (accepted : ofBlock b pipeline ctx = .ok s) (ha : a ∈ b.attributes)
    (name : a.name = "depends_on") (awaited : target ∈ (a.resolve ctx).dependencies.steps)
    (other : target ≠ s.fullName) : target ∈ s.dependencies.steps := by
  refine mem_of_setAttribute accepted ha (fun s' _ => ?_) other
  rw [setAttribute, if_pos (by rw [name]; decide)]
  exact (grows_mem _).setCommon_of_depending a (DependencySet.mem_merge.2 (.inr awaited))

theorem mem_of_lists (accepted : ofBlock b pipeline ctx = .ok s) (ha : a ∈ b.attributes)
    {text : String} (lists : a.Lists ctx text) (other : targetOfText text ≠ s.fullName) :
    targetOfText text ∈ s.dependencies.steps := by
  obtain ⟨name, v, resolved, he⟩ := lists
  refine mem_of_setAttribute accepted ha (fun s' stored => ?_) other
  rw [setAttribute, if_pos (by rw [name]; decide), setCommon] at stored ⊢
  simp only [resolved, name] at stored ⊢
  refine Diagnostics.gather_reaches
    (I := fun s : Step => (⟨.step, targetOfText text⟩ : Edge) ∈ s.dependencies)
    ((grows_mem _).addEntry a.location) (fun s'' added => ?_) he stored
  unfold addEntry at added ⊢
  split at added
  · rename_i edge hedge
    obtain rfl := target_of_edgeOfText? hedge
    exact DependencySet.mem_add.2 (.inr rfl)
  · cases added

section
variable {entries : List Entry} {e : Expression}

theorem mem_references {r : Reference} :
    r ∈ (Expression.tuple (entries.map Entry.expression)).references ↔
      ∃ kind name, Entry.reference kind name ∈ entries ∧ r = ⟨"step", [kind, name]⟩ := by
  rw [Expression.references]
  induction entries with
  | nil => simp [Expression.listReferences]
  | cons entry entries ih =>
    rw [List.map_cons, Expression.listReferences, List.mem_append, ih,
      entry.references_expression]
    cases entry <;> simp [Entry.references, or_and_right, exists_or]

theorem deferrable_entries (ctx : ResolutionContext) :
    (Expression.tuple (entries.map Entry.expression)).Deferrable ctx := by
  have root {r : Reference}
      (hr : r ∈ (Expression.tuple (entries.map Entry.expression)).references) :
      r.root = "step" ∧ r.segmentCount = 3 := by
    obtain ⟨kind, name, -, rfl⟩ := mem_references.1 hr
    exact ⟨rfl, rfl⟩
  have only {name : String}
      (hn : name ∈ (Expression.tuple (entries.map Entry.expression)).unknownRoots
        ctx.environment) : name = "step" := by
    obtain ⟨r, hr, rfl⟩ := Expression.mem_roots.1 (List.mem_filter.1 hn).1
    exact (root hr).1
  refine ⟨fun name hn => only hn ▸ ctx.block.binds_step, fun _ r hr => ?_, fun unknown => ?_⟩
  · exact Nat.le_of_eq (root (List.mem_filter.1 hr).1).2.symm
  · exact absurd (only unknown) (by decide)

/-- While `step` is unbound, a list with a reference waits, and waits for its target. -/
theorem resolve_of_reference {kind name : String} (h : e.IsListOf (entries.map Entry.expression))
    (free : ctx.environment.binds "step" = false) (hr : Entry.reference kind name ∈ entries)
    (location : Location) : ∃ d : DependencySet,
      e.resolve location ctx = .deferred d ∧ kind ++ "." ++ name ∈ d.steps := by
  obtain rfl := h.eq_tuple (List.mem_map.2 ⟨_, hr, rfl⟩) rfl
  have referred := mem_references.2 ⟨kind, name, hr, rfl⟩
  have unknown : "step" ∈ (Expression.tuple (entries.map Entry.expression)).unknownRoots
      ctx.environment :=
    List.mem_filter.2 ⟨Expression.mem_roots.2 ⟨_, referred, rfl⟩, by simp [free]⟩
  refine ⟨_, Expression.resolve_of_deferrable location (List.ne_nil_of_mem unknown)
    (deferrable_entries ctx), ?_⟩
  rw [Expression.awaited, if_pos unknown, Expression.targetsOf, List.mem_eraseDups]
  exact List.mem_map.2 ⟨_, List.mem_filter.2 ⟨referred, rfl⟩, rfl⟩

theorem exists_texts (h : ∀ kind name, Entry.reference kind name ∉ entries) :
    ∃ texts : List StepText, entries = texts.map .text := by
  induction entries with
  | nil => exact ⟨[], rfl⟩
  | cons entry entries ih =>
    obtain ⟨texts, rfl⟩ := ih fun kind name hr => h kind name (List.mem_cons_of_mem _ hr)
    cases entry with
    | text t => exact ⟨t :: texts, rfl⟩
    | reference kind name => exact absurd List.mem_cons_self (h kind name)

/-- A list of texts lists each of them. -/
theorem lists_texts {texts : List StepText} (name : a.name = "depends_on")
    (h : a.expression.IsListOf ((texts.map Entry.text).map Entry.expression)) {t : StepText}
    (ht : t ∈ texts) : a.Lists ctx t.text := by
  have literals : (texts.map Entry.text).map Entry.expression =
      (texts.map fun t => Value.string t.text).map .literal := by
    simp only [List.map_map]
    rfl
  rw [literals] at h
  refine ⟨name, .list (texts.map fun t => .string t.text), ?_, List.mem_map.2 ⟨t, ht, rfl⟩⟩
  rw [Attribute.resolve, h.resolve_literals]
  rfl

/-- An accepted step waits for every entry of its explicit list that decoding keeps, apart from
itself. -/
theorem waits_of_kept (accepted : ofBlock b pipeline ctx = .ok s) (ha : a ∈ b.attributes)
    (name : a.name = "depends_on") (lists : a.expression.IsListOf (entries.map Entry.expression)) :
    ∀ entry ∈ entries, entry.Kept ctx.environment entries → entry.target ≠ s.fullName →
      entry.target ∈ s.dependencies.steps := by
  intro entry he kept other
  cases entry with
  | reference kind refName =>
    obtain ⟨d, waits, awaited⟩ := resolve_of_reference lists kept he a.location
    exact mem_of_awaited accepted ha name (by rwa [Attribute.resolve, waits]) other
  | text t =>
    obtain ⟨texts, rfl⟩ := exists_texts kept
    have ht : t ∈ texts := by simpa using he
    rw [Entry.target, ← targetOfText_text t] at other ⊢
    exact mem_of_lists accepted ha (lists_texts name lists ht) other

/-- A step with an explicit list. -/
def waitingBlock (entries : List Entry) : Block where
  type := "step"
  labels := ["sleep", "after"]
  attributes := [⟨"duration", .literal (.string "1s"), default⟩,
    ⟨"depends_on", .tuple (entries.map Entry.expression), default⟩]
  blocks := []
  location := default
  diagnostics := []

/-- Two references, of which one is the step itself, and two texts. -/
theorem waits_of_kept_pairs :
    (∃ s, ofBlock (waitingBlock [.reference "http" "b", .reference "sleep" "after"]) "p"
      ⟨.empty, {}, .plain, .brief⟩ = .ok s ∧ "http.b" ∈ s.dependencies.steps) ∧
    ∃ s, ofBlock (waitingBlock [.text ⟨true, .http, "a"⟩, .text ⟨false, .query, "b"⟩]) "p"
      ⟨.empty, {}, .plain, .brief⟩ = .ok s ∧
        "http.a" ∈ s.dependencies.steps ∧ "query.b" ∈ s.dependencies.steps := by
  constructor
  · obtain ⟨s, accepted, name⟩ : ∃ s, ofBlock
        (waitingBlock [.reference "http" "b", .reference "sleep" "after"]) "p"
          ⟨.empty, {}, .plain, .brief⟩ = .ok s ∧ s.fullName = "sleep.after" := by decide
    exact ⟨s, accepted, waits_of_kept accepted (List.mem_cons_of_mem _ List.mem_cons_self) rfl
      (.inl rfl) (.reference "http" "b") List.mem_cons_self rfl (by rw [name]; decide)⟩
  · obtain ⟨s, accepted, name⟩ : ∃ s, ofBlock
        (waitingBlock [.text ⟨true, .http, "a"⟩, .text ⟨false, .query, "b"⟩]) "p"
          ⟨.empty, {}, .plain, .brief⟩ = .ok s ∧ s.fullName = "sleep.after" := by decide
    have waits := waits_of_kept accepted (List.mem_cons_of_mem _ List.mem_cons_self) rfl (.inl rfl)
    refine ⟨s, accepted, waits (.text ⟨true, .http, "a"⟩) List.mem_cons_self (by simp [Entry.Kept])
      (by rw [name]; decide), waits (.text ⟨false, .query, "b"⟩)
        (List.mem_cons_of_mem _ List.mem_cons_self) (by simp [Entry.Kept])
        (by rw [name]; decide)⟩

/-- Next to a reference the step that a text names is not waited for. -/
theorem waits_mixedList :
    ¬∀ (b : Block) (pipeline : String) (ctx : ResolutionContext) (s : Step),
      ctx.environment.binds "step" = false → ofBlock b pipeline ctx = .ok s →
      ∀ a ∈ b.attributes, a.name = "depends_on" →
      ∀ entries : List Entry, a.expression.IsListOf (entries.map Entry.expression) →
      ∀ entry ∈ entries, entry.target ≠ s.fullName → entry.target ∈ s.dependencies.steps := by
  intro all
  obtain ⟨s, accepted, name, found⟩ : ∃ s, ofBlock
      (waitingBlock [.text ⟨true, .http, "a"⟩, .reference "http" "b"]) "p"
        ⟨.empty, {}, .plain, .brief⟩ = .ok s ∧ s.fullName = "sleep.after" ∧
          s.dependencies.steps = ["http.b"] := by decide
  have lost := all _ "p" ⟨.empty, {}, .plain, .brief⟩ s rfl accepted _
    (List.mem_cons_of_mem _ List.mem_cons_self) rfl _ (.inl rfl) (.text ⟨true, .http, "a"⟩)
    List.mem_cons_self (by rw [name]; decide)
  rw [found] at lost
  exact absurd lost (by decide)

end

end Step
end PipelineResolution
