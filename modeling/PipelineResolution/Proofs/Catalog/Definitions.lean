import PipelineResolution.Proofs.Catalog.Account
import PipelineResolution.Proofs.Catalog.Independence
import PipelineResolution.Proofs.Document.Keys

/-!
# What expressions see of a pipeline

Before a document is read, every pipeline of it is announced by its name and by the title and the
description that need no variable. Once the pipeline is in the catalog, both are what they resolve
to. The two agree when the texts need no variable and no later pipeline has the same name.
-/
namespace PipelineResolution

/-- Of entries with one key the last counts. -/
theorem Dict.get?_ofEntries_of_last {α : Type} {before after : List (String × α)} {key : String}
    {value : α} (last : ∀ e ∈ after, e.1 ≠ key) :
    (Dict.ofEntries (before ++ (key, value) :: after)).get? key = some value := by
  have none : after.filter (·.1 == key) = [] :=
    List.filter_eq_nil_iff.2 fun e he => by simpa using last e he
  rw [get?_ofEntries_eq_getLast?, List.filter_append, List.filter_cons_of_pos (by simp), none]
  simp

namespace Pipeline
variable {ctx : ResolutionContext} {p : Pipeline}

/-- The text that a pipeline keeps of an attribute. -/
def text? (p : Pipeline) : String → Option String
  | "title" => p.title
  | "description" => p.description
  | _ => none

section
variable (name : String) (title description : Option String)

theorem get?_title_objectOf :
    (Environment.entriesOf (some (objectOf name title description))).get? "title" =
      title.map .string := by
  cases title <;> cases description <;> rfl

theorem get?_description_objectOf :
    (Environment.entriesOf (some (objectOf name title description))).get? "description" =
      description.map .string := by
  cases title <;> cases description <;> rfl

end

theorem objectOf_inj {name : String} {title title' description description' : Option String} :
    objectOf name title description = objectOf name title' description' ↔
      title = title' ∧ description = description' := by
  have inj : Function.Injective (Option.map Value.string) :=
    Option.map_injective fun _ _ => Value.string.inj
  constructor
  · intro same
    have ht := get?_title_objectOf name title description
    have hd := get?_description_objectOf name title description
    rw [same, get?_title_objectOf] at ht
    rw [same, get?_description_objectOf] at hd
    exact ⟨(inj ht).symm, (inj hd).symm⟩
  · rintro ⟨rfl, rfl⟩
    rfl

theorem hasErrors_of_staticText {a : Attribute} {ds : Diagnostics}
    (h : staticText a ctx = .error ds) : ds.hasErrors = true := by
  unfold staticText at h
  split at h
  · cases h
  · cases h
    rfl
  · cases h
    rfl
  · rename_i failed
    cases h
    exact Expression.hasErrors_of_failed failed

theorem evaluate_of_staticText {a : Attribute} {text : String} (h : staticText a ctx = .ok text) :
    a.expression.evaluate ctx.environment = .ok (.string text) := by
  unfold staticText at h
  split at h <;> cases h
  exact Expression.evaluate_of_resolved ‹_›

/-- An attribute that is accepted gives the text under its name and leaves the other as it is. -/
theorem text?_setAttribute {a : Attribute} (known : a.name = "title" ∨ a.name = "description")
    (accepted : (setAttribute ctx p a).2.hasErrors = false) :
    ∃ text, staticText a ctx = .ok text ∧ ∀ name,
      (setAttribute ctx p a).1.text? name = if name = a.name then some text else p.text? name := by
  cases hs : staticText a ctx with
  | error ds =>
    rcases known with hn | hn <;>
      simp only [setAttribute, hn, hs] at accepted <;>
      exact absurd (hasErrors_of_staticText hs) (by simp [accepted])
  | ok text =>
    refine ⟨text, rfl, fun name => ?_⟩
    rcases known with hn | hn
    · simp only [setAttribute, hn, hs]
      unfold text?
      split <;> simp_all
    · simp only [setAttribute, hn, hs]
      unfold text?
      split <;> simp_all

theorem text?_setAttributes {as : List Attribute}
    (known : ∀ a ∈ as, a.name = "title" ∨ a.name = "description")
    (accepted : (Diagnostics.gather (setAttribute ctx) p as).2.hasErrors = false) (name : String) :
    ((∀ a ∈ as, a.name ≠ name) ∧
      (Diagnostics.gather (setAttribute ctx) p as).1.text? name = p.text? name) ∨
    ∃ before a after text, as = before ++ a :: after ∧ a.name = name ∧
      (∀ other ∈ after, other.name ≠ name) ∧ staticText a ctx = .ok text ∧
      (Diagnostics.gather (setAttribute ctx) p as).1.text? name = some text := by
  induction as generalizing p with
  | nil => exact .inl ⟨fun _ h => (nomatch h), rfl⟩
  | cons a as ih =>
    simp only [Diagnostics.gather, Diagnostics.hasErrors_append, Bool.or_eq_false_iff] at accepted
    obtain ⟨ha, known⟩ := List.forall_mem_cons.1 known
    obtain ⟨text, static, put⟩ := text?_setAttribute ha accepted.1
    rcases ih known accepted.2 with ⟨free, same⟩ | ⟨before, last, after, found, rfl, rest⟩
    · by_cases hn : a.name = name
      · have own := same.trans ((put name).trans (if_pos hn.symm))
        exact .inr ⟨[], a, as, text, rfl, hn, free, static, own⟩
      · exact .inl ⟨List.forall_mem_cons.2 ⟨hn, free⟩,
          same.trans (by rw [put, if_neg (Ne.symm hn)])⟩
    · exact .inr ⟨a :: before, last, after, found, rfl, rest⟩

theorem text?_declare {α : Type} {what : String} {b : Block} {decoded : Except Diagnostics α}
    {name : α → String} {taken : String → Bool} {add : α → Pipeline}
    (kept : ∀ a, (add a).text? = p.text?) :
    (p.declare what b decoded name taken add).1.text? = p.text? := by
  unfold declare
  split
  · split
    · rfl
    · exact kept _
  · rfl

theorem text?_addBlock (b : Block) : (addBlock ctx p b).1.text? = p.text? := by
  unfold addBlock
  split
  · exact text?_declare fun _ => rfl
  · exact text?_declare fun _ => rfl
  · exact text?_declare fun _ => rfl
  · rfl

theorem text?_addBlocks (bs : List Block) :
    (Diagnostics.gather (addBlock ctx) p bs).1.text? = p.text? := by
  induction bs generalizing p with
  | nil => rfl
  | cons b bs ih => exact ih.trans (text?_addBlock b)

/-- What a decoded pipeline keeps of an attribute is what the last one of its name resolves to. -/
theorem text?_of_ofBlock {b : Block} (h : ofBlock b ctx = .ok p) :
    (∀ a ∈ b.attributes, a.name = "title" ∨ a.name = "description") ∧ ∀ name,
      ((∀ a ∈ b.attributes, a.name ≠ name) ∧ p.text? name = none) ∨
      ∃ before a after text, b.attributes = before ++ a :: after ∧ a.name = name ∧
        (∀ other ∈ after, other.name ≠ name) ∧ staticText a ctx = .ok text ∧
        p.text? name = some text := by
  unfold ofBlock at h
  split at h
  · cases h
  · rename_i label _
    dsimp only at h
    split at h
    · cases h
    · rename_i accepted
      obtain ⟨-, rfl⟩ := Diagnostics.orValue_eq_ok.1 h
      simp only [Bool.not_eq_true, Diagnostics.hasErrors_append, Bool.or_eq_false_iff] at accepted
      have known : ∀ a ∈ b.attributes, a.name = "title" ∨ a.name = "description" := by
        intro a ha
        by_contra unknown
        have reported : Block.unsupportedAttribute a b.type ∈
            b.unsupportedAttributes ["title", "description"] :=
          List.mem_map.2 ⟨a, List.mem_filter.2 ⟨ha, by simpa using unknown⟩, rfl⟩
        have clean := List.any_eq_false.1 accepted.1.1 _ reported
        exact clean rfl
      refine ⟨known, fun name => ?_⟩
      rw [text?_addBlocks]
      have start : ({ name := label, location := b.location } : Pipeline).text? name = none := by
        unfold text?
        split <;> rfl
      have set := text?_setAttributes known accepted.1.2 name
      rwa [start] at set

end Pipeline

namespace Catalog
variable {ctx : ResolutionContext} {b : Block} {p : Pipeline}

/-- A text that is kept is announced when it needs no variable. -/
theorem constantText?_eq_iff (decoded : Pipeline.ofBlock b ctx = .ok p)
    (sorted : ctx.environment.bindings.Sorted) {name : String} (only : Yaml.OnlyText name)
    (once : b.GivesOnce) :
    constantText? b name = p.text? name ↔
      ∀ a ∈ b.attributes, a.name = name → ∃ v, a.expression.evaluate .empty = .ok v := by
  rcases (Pipeline.text?_of_ofBlock decoded).2 name with
    ⟨free, none⟩ | ⟨before, a, after, text, split, named, -, static, kept⟩
  · have absent : b.attribute? name = Option.none :=
      List.find?_eq_none.2 fun a ha => by simpa using free a ha
    rw [none, constantText?_eq, absent]
    exact iff_of_true rfl fun a ha named => absurd named (free a ha)
  · subst named
    have unique : ∀ other ∈ b.attributes, other.name = a.name → other = a := by
      intro other ho same
      have found := once.attribute?_eq ho (same ▸ only)
      rw [same, once.attribute?_eq (by simp [split]) only] at found
      exact (Option.some.inj found).symm
    rw [kept, constantText?_eq, once.attribute?_eq (by simp [split]) only]
    cases he : a.expression.evaluate .empty with
    | ok v =>
      have includes : Environment.empty.Includes ctx.environment := fun _ _ h => by cases h
      have apart : Environment.empty.Apart ctx.environment := fun _ _ _ _ h => by cases h
      have grown := a.expression.evaluate_within includes apart .nil sorted v he
      obtain rfl : v = .string text :=
        Except.ok.inj (grown.symm.trans (Pipeline.evaluate_of_staticText static))
      refine iff_of_true (by simp [he, Except.toOption, Value.text?]) fun other ho same => ?_
      exact ⟨_, unique other ho same ▸ he⟩
    | error ds =>
      refine iff_of_false (by simp [he, Except.toOption]) fun early => ?_
      obtain ⟨v, hv⟩ := early a (by simp [split]) rfl
      cases he.symm.trans hv

/-- The value that `pipeline` binds under a name before any of the blocks is decoded. -/
def seen? (blocks : List Block) (name : String) : Option Value :=
  (Environment.entriesOf ((definitions blocks).get? "pipeline")).get? name

/-- The last of some blocks that is a pipeline with a name. -/
def LastNamed (blocks : List Block) (name : String) (b : Block) : Prop :=
  ∃ before after, blocks = before ++ b :: after ∧ b.type = "pipeline" ∧ b.label? 0 = some name ∧
    ∀ other ∈ after, other.type = "pipeline" → other.label? 0 ≠ some name

theorem exists_lastNamed {blocks : List Block} {name : String}
    (named : ∃ b ∈ blocks, b.type = "pipeline" ∧ b.label? 0 = some name) :
    ∃ last, LastNamed blocks name last := by
  induction blocks with
  | nil => simp at named
  | cons b blocks ih =>
    by_cases later : ∃ other ∈ blocks, other.type = "pipeline" ∧ other.label? 0 = some name
    · obtain ⟨last, before, after, rfl, rest⟩ := ih later
      exact ⟨last, b :: before, after, rfl, rest⟩
    · obtain ⟨c, hc, type, label⟩ := named
      rcases List.mem_cons.1 hc with rfl | hc
      · exact ⟨c, [], blocks, rfl, type, label, fun other ho ht hl => later ⟨other, ho, ht, hl⟩⟩
      · exact absurd ⟨c, hc, type, label⟩ later

theorem LastNamed.seen {blocks : List Block} {name : String} (h : LastNamed blocks name b) :
    seen? blocks name = some (Pipeline.objectOf name (constantText? b "title")
      (constantText? b "description")) := by
  obtain ⟨before, after, rfl, type, label, last⟩ := h
  have announces : announced b = some (name, Pipeline.objectOf name (constantText? b "title")
      (constantText? b "description")) := by
    unfold announced
    rw [label]
    rfl
  have others : ∀ e ∈ (after.filter (·.type == "pipeline")).filterMap announced, e.1 ≠ name := by
    intro e he same
    obtain ⟨other, ho, found⟩ := List.mem_filterMap.1 he
    obtain ⟨ho, ht⟩ := List.mem_filter.1 ho
    obtain ⟨label, hl, found⟩ := Option.bind_eq_some_iff.1 found
    cases found
    exact last other ho (by simpa using ht) (hl.trans (congrArg some same))
  have bound : (definitions (before ++ b :: after)).get? "pipeline" = some (.ofEntries
      (((before ++ b :: after).filter (·.type == "pipeline")).filterMap announced)) := rfl
  unfold seen?
  rw [bound, List.filter_append, List.filter_cons_of_pos (by simp [type]), List.filterMap_append,
    List.filterMap_cons, announces]
  exact Dict.get?_ofEntries_of_last others

/-- Expressions see a pipeline of the catalog as it is when the last block of its name announces its
texts. Where only one block has the name, these are the texts that need no variable. -/
theorem seen_iff {text : String} {file : Option String} {d : Document}
    (decoded : Document.decode text file = .ok d) {loader : Loader} {name : String}
    (found : (ofDocument d loader).pipelines.get? name = some p) :
    ∃ first last, first ∈ d.blocks ∧ DeclaresPipeline d loader first p ∧ p.name = name ∧
      LastNamed d.blocks name last ∧
      (seen? d.blocks name = some p.toValue ↔ constantText? last "title" = p.title ∧
        constantText? last "description" = p.description) ∧
      (last = first → (seen? d.blocks name = some p.toValue ↔
        ∀ a ∈ first.attributes, ∃ v, a.expression.evaluate .empty = .ok v)) := by
  obtain ⟨before, first, after, split, declares, rfl, -⟩ :=
    (get?_pipelines_iff (Document.conforms_of_decode decoded)).1 found
  have hfirst : first ∈ d.blocks := by simp [split]
  obtain ⟨label, hl, grown, -, -⟩ := Pipeline.exists_of_ofBlock declares.decoded
  have hl : first.label? 0 = some p.name := hl.trans (congrArg some grown.name.symm)
  obtain ⟨last, hlast⟩ := exists_lastNamed ⟨first, hfirst, declares.type, hl⟩
  have agrees : seen? d.blocks p.name = some p.toValue ↔ constantText? last "title" = p.title ∧
      constantText? last "description" = p.description := by
    rw [hlast.seen, Option.some.injEq]
    exact Pipeline.objectOf_inj
  refine ⟨first, last, hfirst, declares, rfl, hlast, agrees, ?_⟩
  rintro rfl
  have once := Document.givesOnce_of_decode decoded last hfirst
  have sorted : (contextOf d loader).environment.bindings.Sorted :=
    Dict.Sorted.insert .nil "pipeline" _
  have known := (Pipeline.text?_of_ofBlock declares.decoded).1
  rw [agrees]
  change constantText? last "title" = p.text? "title" ∧
    constantText? last "description" = p.text? "description" ↔ _
  rw [constantText?_eq_iff declares.decoded sorted Yaml.onlyText_title once,
    constantText?_eq_iff declares.decoded sorted Yaml.onlyText_description once]
  constructor
  · rintro ⟨titles, descriptions⟩ a ha
    exact (known a ha).elim (titles a ha) (descriptions a ha)
  · intro all
    exact ⟨fun a ha _ => all a ha, fun a ha _ => all a ha⟩

/-- A pipeline with a title of its own and one that is titled after it. -/
def titledText : String :=
  "\x7bpipeline: \x7ba: \x7btitle: t\x7d, b: \x7btitle: '$\x7bpipeline.a.title\x7d'\x7d\x7d\x7d"

theorem decode_titledText :
    ∃ d, Document.decode titledText none = .ok d ∧
      ((ofDocument d {}).pipelines.get? "a").map (fun p => (p.title, p.description)) =
        some (some "t", none) ∧
      ((Environment.entriesOf (seen? d.blocks "a")).get? "title").bind Value.text? = some "t" ∧
      (Environment.entriesOf (seen? d.blocks "a")).contains "description" = false ∧
      ((ofDocument d {}).pipelines.get? "b").map (·.title) = some (some "t") ∧
      (Environment.entriesOf (seen? d.blocks "b")).contains "title" = false := by
  decide +kernel

/-- The first of the two is seen with its title. -/
theorem seen_iff_titled :
    ∃ d p, Document.decode titledText none = .ok d ∧
      (ofDocument d {}).pipelines.get? "a" = some p ∧ p.title = some "t" ∧
      seen? d.blocks "a" = some p.toValue := by
  obtain ⟨d, decoded, known, title, description, -⟩ := decode_titledText
  obtain ⟨p, found, texts⟩ := Option.map_eq_some_iff.1 known
  obtain ⟨ht, hd⟩ := Prod.mk.inj texts
  obtain ⟨first, last, -, -, -, named, agrees, -⟩ := seen_iff decoded found
  rw [named.seen, Pipeline.get?_title_objectOf] at title
  rw [named.seen, Dict.contains_eq_false, Pipeline.get?_description_objectOf,
    Option.map_eq_none_iff] at description
  refine ⟨d, p, decoded, found, ht, agrees.2 ⟨?_, description.trans hd.symm⟩⟩
  rw [ht]
  cases hc : constantText? last "title" with
  | none =>
    rw [hc] at title
    cases title
  | some t =>
    rw [hc] at title
    exact title

/-- The second is seen without a title. -/
theorem not_seen_toValue :
    ¬∀ (text : String) (file : Option String) (d : Document) (loader : Loader)
      (name : String) (p : Pipeline), Document.decode text file = .ok d →
        (ofDocument d loader).pipelines.get? name = some p →
          seen? d.blocks name = some p.toValue := by
  intro claim
  obtain ⟨d, decoded, -, -, -, titled, untitled⟩ := decode_titledText
  obtain ⟨p, found, title⟩ := Option.map_eq_some_iff.1 titled
  rw [claim titledText none d {} "b" p decoded found, Dict.contains, Pipeline.toValue,
    Pipeline.get?_title_objectOf, title] at untitled
  cases untitled

end Catalog
end PipelineResolution
