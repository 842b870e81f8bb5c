import PipelineResolution.Proofs.Catalog.Pass
import PipelineResolution.Proofs.Document.Layout
import PipelineResolution.Proofs.Trigger.WellFormed

/-!
# Resources do not influence each other

Where the blocks of a document have resources of their own, what becomes of a block is told by the
block and the environment alone. Neither the order of the document nor another pipeline matters, as
long as the environment of the document stays the same.
-/
namespace PipelineResolution

namespace Catalog

theorem ne_of_distinct {before after : List Block} {b x : Block}
    (distinct : ((before ++ b :: after).map resourceOf).Nodup) (hx : x ∈ before ++ after) :
    resourceOf x ≠ resourceOf b := by
  rw [List.map_append, List.map_cons] at distinct
  have fresh := (List.nodup_middle.1 distinct |> List.nodup_cons.1).1
  rw [← List.map_append] at fresh
  exact fun same => fresh (same ▸ List.mem_map_of_mem hx)

namespace Pass
variable {α : Type} {P : Pass α} {s s' : State α} {b : Block} {a : α} {bs bs' : List Block}
  {before after : List Block} {resource : String}

/-- The blocks have resources of their own, which tell the names of what is declared. -/
structure Apart (P : Pass α) (key : String → String) (bs : List Block) : Prop where
  distinct : (bs.map resourceOf).Nodup
  named : ∀ b ∈ bs, b.type = P.type → ∀ a, P.decoded b = .ok a → resourceOf b = key (P.name a)

/-- What is reported on a block whose name is free. -/
def reportsOn (P : Pass α) (b : Block) : Diagnostics :=
  match P.verdict [] b with
  | .ok _ => []
  | .error ds => ds

theorem get?_reports_take (other : resourceOf b ≠ resource) :
    (P.take s b).reports.get? resource = s.reports.get? resource := by
  unfold take
  split
  · rfl
  · exact get?_filed_of_ne other

/-- Nothing is reported under a resource that no block has. -/
theorem get?_reports_run (other : ∀ b ∈ bs, b.type = P.type → resourceOf b ≠ resource) :
    (P.run s bs).reports.get? resource = s.reports.get? resource := by
  induction bs generalizing s with
  | nil => rfl
  | cons b bs ih =>
    obtain ⟨hb, hbs⟩ := List.forall_mem_cons.1 other
    by_cases type : b.type = P.type
    · rw [run_cons_of_type type, ih hbs, get?_reports_take (hb type)]
    · rw [run_cons_of_ne type, ih hbs]

theorem reports_take_of_free
    (free : ∀ a, P.decoded b = .ok a → s.entries.get? (P.name a) = none) :
    (P.take s b).reports = filed s.reports (resourceOf b) (P.reportsOn b) := by
  have same : P.verdict s.entries b = P.verdict [] b := by
    unfold verdict
    cases hd : P.decoded b with
    | error ds => rfl
    | ok a =>
      change Diagnostics.orValue (P.check a b _) a = Diagnostics.orValue (P.check a b _) a
      rw [Dict.contains_eq_false.2 (free a hd)]
      rfl
  unfold take reportsOn
  rw [same]
  cases P.verdict [] b <;> rfl

theorem sorted_entries_run (empty : s.entries = []) (bs : List Block) :
    (P.run s bs).entries.Sorted := by
  refine run_preserves (I := fun s => s.entries.Sorted) (fun s b _ hs => ?_) bs (empty ▸ .nil)
  unfold take
  split
  · exact hs.insert ..
  · exact hs

section
variable {key : String → String} (h : P.Lawful) (apart : P.Apart key bs) (empty : s.entries = [])
include h apart empty

theorem free_of_apart (split : bs = before ++ b :: after) (type : b.type = P.type)
    (decoded : P.decoded b = .ok a) : (P.run s before).entries.get? (P.name a) = none := by
  cases taken : (P.run s before).entries.get? (P.name a) with
  | none => rfl
  | some a' =>
    obtain ⟨pre, b', post, rfl, declared, same, -⟩ := (h.get?_run_eq_some_iff empty).1 taken
    subst split
    refine absurd ?_ (ne_of_distinct apart.distinct (x := b') (by simp))
    rw [apart.named b (by simp) type a decoded,
      apart.named b' (by simp) declared.type a' declared.decoded, same]

/-- What is reported on a block is told by the block and what was reported under its resource
before. -/
theorem get?_reports_of_mem (hb : b ∈ bs) (type : b.type = P.type) :
    (P.run s bs).reports.get? (resourceOf b) =
      (filed s.reports (resourceOf b) (P.reportsOn b)).get? (resourceOf b) := by
  obtain ⟨before, after, split⟩ := List.append_of_mem hb
  have other : ∀ x ∈ before ++ after, x.type = P.type → resourceOf x ≠ resourceOf b :=
    fun x hx _ => ne_of_distinct (split ▸ apart.distinct) hx
  have earlier : (P.run s before).reports.get? (resourceOf b) = s.reports.get? (resourceOf b) :=
    get?_reports_run fun x hx => other x (List.mem_append_left _ hx)
  have free := fun a decoded => free_of_apart h apart empty split type (a := a) decoded
  rw [split, run_append, run_cons_of_type type,
    get?_reports_run fun x hx => other x (List.mem_append_right _ hx), reports_take_of_free free,
    get?_filed, get?_filed, earlier]

/-- Every name that is declared has its entry. -/
theorem get?_entries_iff_of_apart {name : String} : (P.run s bs).entries.get? name = some a ↔
    ∃ b ∈ bs, P.Declares b a ∧ P.name a = name := by
  rw [h.get?_run_eq_some_iff empty]
  constructor
  · rintro ⟨before, b, after, rfl, declared, same, -⟩
    exact ⟨b, by simp, declared, same⟩
  · rintro ⟨b, hb, declared, rfl⟩
    obtain ⟨before, after, split⟩ := List.append_of_mem hb
    refine ⟨before, b, after, split, declared, rfl, fun b' hb' a' declared' same => ?_⟩
    refine ne_of_distinct (split ▸ apart.distinct) (List.mem_append_left _ hb') ?_
    rw [apart.named b hb declared.type a declared.decoded, apart.named b' ?_ declared'.type a'
      declared'.decoded, same]
    rw [split]
    exact List.mem_append_left _ hb'

/-- Two runs agree on a resource whose blocks are the same. -/
theorem get?_reports_congr (apart' : P.Apart key bs') (empty' : s'.entries = [])
    (start : s.reports.get? resource = s'.reports.get? resource)
    (same : ∀ b, resourceOf b = resource → (b ∈ bs ↔ b ∈ bs')) :
    (P.run s bs).reports.get? resource = (P.run s' bs').reports.get? resource := by
  by_cases found : ∃ b ∈ bs, b.type = P.type ∧ resourceOf b = resource
  · obtain ⟨b, hb, type, rfl⟩ := found
    rw [get?_reports_of_mem h apart empty hb type,
      get?_reports_of_mem h apart' empty' ((same b rfl).1 hb) type, get?_filed, get?_filed, start]
  · rw [get?_reports_run fun b hb type hr => found ⟨b, hb, type, hr⟩,
      get?_reports_run fun b hb type hr => found ⟨b, (same b hr).2 hb, type, hr⟩, start]

/-- Two runs agree on a name whose resource has the same blocks. -/
theorem get?_entries_congr (apart' : P.Apart key bs') (empty' : s'.entries = []) {name : String}
    (same : ∀ b, resourceOf b = key name → (b ∈ bs ↔ b ∈ bs')) :
    (P.run s bs).entries.get? name = (P.run s' bs').entries.get? name := by
  ext a
  rw [get?_entries_iff_of_apart h apart empty, get?_entries_iff_of_apart h apart' empty']
  constructor
  · rintro ⟨b, hb, declared, rfl⟩
    exact ⟨b, (same b (apart.named b hb declared.type a declared.decoded)).1 hb, declared, rfl⟩
  · rintro ⟨b, hb, declared, rfl⟩
    exact ⟨b, (same b (apart'.named b hb declared.type a declared.decoded)).2 hb, declared, rfl⟩

/-- Two runs over the same blocks in any order put the same entries. -/
theorem entries_congr (apart' : P.Apart key bs') (empty' : s'.entries = [])
    (same : ∀ b, b ∈ bs ↔ b ∈ bs') : (P.run s bs).entries = (P.run s' bs').entries :=
  (sorted_entries_run empty bs).ext (sorted_entries_run empty' bs') fun _ =>
    get?_entries_congr h apart empty apart' empty' fun b _ => same b

end

end Pass

/-- The blocks of a document have resources of their own, and its pipelines have one label. -/
structure Distinct (bs : List Block) : Prop where
  resources : (bs.map resourceOf).Nodup
  labels : ∀ b ∈ bs, b.type = "pipeline" → b.labels.length = 1

/-- The resource of a pipeline or trigger by its name. -/
def resourceFor (type name : String) : String := type ++ "." ++ name

theorem Distinct.resourceOf_eq {bs : List Block} (h : Distinct bs) {b : Block} (hb : b ∈ bs)
    (type : b.type = "pipeline") :
    ∃ name, b.label? 0 = some name ∧ resourceOf b = resourceFor "pipeline" name := by
  obtain ⟨name, labels⟩ := List.length_eq_one_iff.1 (h.labels b hb type)
  refine ⟨name, by rw [Block.label?, labels]; rfl, ?_⟩
  rw [resourceOf, type, labels]
  rfl

theorem resourceOf_eq_of_trigger {b : Block} {ctx : ResolutionContext} {t : Trigger}
    (type : b.type = "trigger") (decoded : Trigger.ofBlock b ctx = .ok t) :
    resourceOf b = resourceFor "trigger" t.fullName := by
  unfold Trigger.ofBlock at decoded
  split at decoded
  · rename_i word name labels
    split at decoded
    · cases decoded
    · rename_i kind known
      have named : t.name = name := by
        obtain ⟨-, rfl⟩ := Diagnostics.orValue_eq_ok.1 decoded
        rfl
      rw [resourceOf, type, labels, resourceFor, Trigger.fullName, named,
        (Trigger.wellFormed_ofKind decoded).1, Keyword.spell_of_parse known]
      change "trigger" ++ "." ++ word ++ "." ++ name = _
      simp only [String.append_assoc]
  · cases decoded

theorem apart_pipelinePass {bs : List Block} (h : Distinct bs) (ctx : ResolutionContext) :
    (pipelinePass ctx).Apart (resourceFor "pipeline") bs where
  distinct := h.resources
  named b hb type p decoded := by
    obtain ⟨-, decoded⟩ := decode_eq_ok.1 decoded
    obtain ⟨name, label, grown, -, -⟩ := Pipeline.exists_of_ofBlock decoded
    obtain ⟨name', label', resource⟩ := h.resourceOf_eq hb type
    have named : p.name = name := grown.name
    rw [resource, ← Option.some.inj (label.symm.trans label'), ← named]
    rfl

theorem apart_triggerPass {bs : List Block} (h : Distinct bs) (ctx : ResolutionContext)
    (known : Dict Pipeline) : (triggerPass ctx known).Apart (resourceFor "trigger") bs where
  distinct := h.resources
  named _ _ type _ decoded := resourceOf_eq_of_trigger type (decode_eq_ok.1 decoded).2

theorem distinct_of_conforms {d : Document} (h : d.Conforms)
    (resources : (d.blocks.map resourceOf).Nodup) : Distinct d.blocks where
  resources := resources
  labels b hb type := by
    rcases (h.blocks b hb).root with ⟨-, labels⟩ | ⟨other, -⟩
    · exact labels
    · exact absurd (type.symm.trans other) (by decide)

/-- What other resources see of a pipeline: its name, title and description. -/
structure SameHead (b b' : Block) : Prop where
  type : b'.type = b.type
  labels : b'.labels = b.labels
  title : (b'.attribute? "title").map (·.expression) = (b.attribute? "title").map (·.expression)
  description : (b'.attribute? "description").map (·.expression) =
    (b.attribute? "description").map (·.expression)

theorem constantText?_eq (b : Block) (name : String) :
    constantText? b name = ((b.attribute? name).map (·.expression)).bind fun e =>
      (e.evaluate .empty).toOption.bind Value.text? := by
  unfold constantText?
  cases b.attribute? name <;> rfl

theorem SameHead.resourceOf {b b' : Block} (h : SameHead b b') :
    resourceOf b' = Catalog.resourceOf b := by
  rw [Catalog.resourceOf, Catalog.resourceOf, h.type, h.labels]

theorem SameHead.announced {b b' : Block} (h : SameHead b b') : announced b' = announced b := by
  unfold Catalog.announced Block.label?
  rw [h.labels, constantText?_eq, constantText?_eq, h.title, h.description, ← constantText?_eq,
    ← constantText?_eq]

theorem definitions_replace {before after : List Block} {b b' : Block} (h : SameHead b b') :
    definitions (before ++ b' :: after) = definitions (before ++ b :: after) := by
  unfold definitions
  rw [List.filter_append, List.filter_append, List.filterMap_append, List.filterMap_append,
    List.filter_cons, List.filter_cons, h.type]
  split
  · rw [List.filterMap_cons, List.filterMap_cons, h.announced]
  · rfl

theorem Distinct.replace {before after : List Block} {b b' : Block}
    (h : Distinct (before ++ b :: after)) (head : SameHead b b') :
    Distinct (before ++ b' :: after) where
  resources := by
    have resources := h.resources
    rw [List.map_append, List.map_cons] at resources
    rwa [List.map_append, List.map_cons, head.resourceOf]
  labels y hy type := by
    rw [List.mem_append, List.mem_cons] at hy
    rcases hy with hy | rfl | hy
    · exact h.labels y (by simp [hy]) type
    · exact head.labels ▸ h.labels b (by simp) (head.type ▸ type)
    · exact h.labels y (by simp [hy]) type

/-- The blocks of all other resources stay. -/
theorem SameHead.mem_iff {before after : List Block} {b b' x : Block} (head : SameHead b b')
    (other : Catalog.resourceOf b ≠ Catalog.resourceOf x) :
    x ∈ before ++ b :: after ↔ x ∈ before ++ b' :: after := by
  have hb : x ≠ b := by
    rintro rfl
    exact other rfl
  have hb' : x ≠ b' := by
    rintro rfl
    exact other head.resourceOf.symm
  simp [hb, hb']

/-- The names that the pipelines of a document announce differ like their resources. -/
theorem nodup_announced {bs : List Block} (h : Distinct bs) :
    (((bs.filter (·.type == "pipeline")).filterMap announced).map Prod.fst).Nodup := by
  rw [List.Nodup, List.pairwise_map, List.pairwise_filterMap]
  refine ((List.pairwise_map.1 h.resources).filter _).imp_of_mem ?_
  rintro b b' hb hb' other ⟨name, v⟩ announces ⟨name', v'⟩ announces' same
  have resource {b : Block} {e : String × Value} (hb : b ∈ bs.filter (·.type == "pipeline"))
      (announces : announced b = some e) : resourceOf b = resourceFor "pipeline" e.1 := by
    obtain ⟨hb, type⟩ := List.mem_filter.1 hb
    have type : b.type = "pipeline" := by simpa using type
    unfold announced at announces
    obtain ⟨name, label, he⟩ := Option.bind_eq_some_iff.1 announces
    cases he
    obtain ⟨name', label', resource⟩ := h.resourceOf_eq hb type
    rw [resource, Option.some.inj (label.symm.trans label')]
  refine other ?_
  rw [resource hb announces, resource hb' announces', same]

theorem definitions_perm {bs bs' : List Block} (h : Distinct bs) (same : bs.Perm bs') :
    definitions bs = definitions bs' := by
  unfold definitions Value.ofEntries
  rw [Dict.ofEntries_perm (nodup_announced h) ((same.filter _).filterMap announced)]

theorem resourceFor_injective {type name name' : String}
    (h : resourceFor type name = resourceFor type name') : name = name' := by
  have := congrArg String.toList h
  simp only [resourceFor, String.toList_append, List.append_cancel_left_eq] at this
  exact String.toList_inj.1 this

theorem resourceFor_pipeline_ne (name : String) :
    resourceFor "pipeline" name ≠ documentResource := by
  intro h
  have := congrArg String.toList h
  simp [resourceFor, documentResource] at this

section
variable {d d' : Document} {loader : Loader} (h : Distinct d.blocks)
  (h' : Distinct d'.blocks) (context : contextOf d loader = contextOf d' loader)
include h h' context

theorem pipelines_congr {name : String}
    (same : ∀ b, resourceOf b = resourceFor "pipeline" name → (b ∈ d.blocks ↔ b ∈ d'.blocks)) :
    (pipelineState d loader d.blocks).entries.get? name =
      (pipelineState d' loader d'.blocks).entries.get? name := by
  unfold pipelineState
  rw [← context]
  exact Pass.get?_entries_congr (lawful_pipelinePass _) (apart_pipelinePass h _) rfl
    (apart_pipelinePass h' _) rfl same

theorem pipelineReports_congr {resource : String} (inner : resource ≠ documentResource)
    (same : ∀ b, resourceOf b = resource → (b ∈ d.blocks ↔ b ∈ d'.blocks)) :
    (pipelineState d loader d.blocks).reports.get? resource =
      (pipelineState d' loader d'.blocks).reports.get? resource := by
  unfold pipelineState
  rw [← context]
  refine Pass.get?_reports_congr (lawful_pipelinePass _) (apart_pipelinePass h _) rfl
    (apart_pipelinePass h' _) rfl ?_ same
  rw [get?_filed_of_ne inner.symm, get?_filed_of_ne inner.symm]

end

/-- Two catalogs hold the same, apart from what is reported on the roots of their documents. -/
structure SameResources (c c' : Catalog) : Prop where
  pipelines : c.pipelines = c'.pipelines
  triggers : c.triggers = c'.triggers
  reports : ∀ resource, resource ≠ documentResource →
    c.reports.get? resource = c'.reports.get? resource

theorem sameResources_of_perm {d d' : Document} (h : Distinct d.blocks)
    (same : d.blocks.Perm d'.blocks) (loader : Loader) :
    SameResources (ofDocument d loader) (ofDocument d' loader) := by
  have h' : Distinct d'.blocks :=
    ⟨(same.map resourceOf).nodup_iff.1 h.resources, fun b hb => h.labels b (same.mem_iff.2 hb)⟩
  have context : contextOf d loader = contextOf d' loader := by
    unfold contextOf
    rw [definitions_perm h same]
  have entries : (pipelineState d loader d.blocks).entries =
      (pipelineState d' loader d'.blocks).entries := by
    unfold pipelineState
    rw [← context]
    exact Pass.entries_congr (lawful_pipelinePass _) (apart_pipelinePass h _) rfl
      (apart_pipelinePass h' _) rfl fun _ => same.mem_iff
  rw [ofDocument_eq, ofDocument_eq, triggersAfter_eq, triggersAfter_eq]
  unfold triggerState
  rw [← context, ← entries]
  have apart := apart_triggerPass h (contextOf d loader) (pipelineState d loader d.blocks).entries
  have apart' := apart_triggerPass h' (contextOf d loader) (pipelineState d loader d.blocks).entries
  refine ⟨rfl, ?_, fun resource inner => ?_⟩
  · exact Pass.entries_congr (lawful_triggerPass _ _) apart rfl apart' rfl fun _ => same.mem_iff
  · exact Pass.get?_reports_congr (lawful_triggerPass _ _) apart rfl apart' rfl
      (pipelineReports_congr h h' context inner fun _ _ => same.mem_iff) fun _ _ => same.mem_iff

/-- Triggers report nothing under the resource of a pipeline. -/
theorem get?_reports_of_pipeline {d : Document} {loader : Loader} (h : Distinct d.blocks)
    {x : Block} (hx : x ∈ d.blocks) (type : x.type = "pipeline") :
    (ofDocument d loader).reports.get? (resourceOf x) =
      (pipelineState d loader d.blocks).reports.get? (resourceOf x) := by
  rw [ofDocument_eq, triggersAfter_eq]
  refine Pass.get?_reports_run fun y hy (trigger : y.type = "trigger") same => ?_
  obtain rfl := List.inj_on_of_nodup_map h.resources hy hx same
  exact absurd (type.symm.trans trigger) (by decide)

section
variable {d d' : Document} {before after : List Block} {b b' : Block} (h : Distinct d.blocks)
  (split : d.blocks = before ++ b :: after) (head : SameHead b b')
  (split' : d'.blocks = before ++ b' :: after) (loader : Loader)
include split head split'

theorem context_replace : contextOf d loader = contextOf d' loader := by
  unfold contextOf
  rw [split, split', definitions_replace head]

include h

/-- Another pipeline is taken up or not whatever the body of the one that is replaced. -/
theorem pipelines_replace (type : b.type = "pipeline") {name : String}
    (other : b.label? 0 ≠ some name) :
    (ofDocument d' loader).pipelines.get? name = (ofDocument d loader).pipelines.get? name := by
  have h' : Distinct d'.blocks := split' ▸ (split ▸ h : Distinct (before ++ b :: after)).replace head
  obtain ⟨label, hl, resource⟩ := h.resourceOf_eq (b := b) (by simp [split]) type
  rw [ofDocument_eq, ofDocument_eq, triggersAfter_eq, triggersAfter_eq]
  refine (pipelines_congr h h' (context_replace split head split' loader) fun x hx => ?_).symm
  rw [split, split']
  refine head.mem_iff fun same => other ?_
  rw [hl, resourceFor_injective (resource.symm.trans (same.trans hx))]

/-- What is reported on another pipeline stays the same. -/
theorem reports_replace {x : Block} (hx : x ∈ before ++ after) (pipeline : x.type = "pipeline") :
    (ofDocument d' loader).reports.get? (resourceOf x) =
      (ofDocument d loader).reports.get? (resourceOf x) := by
  have h' : Distinct d'.blocks := split' ▸ (split ▸ h : Distinct (before ++ b :: after)).replace head
  have same (y : Block) (hy : resourceOf y = resourceOf x) : y ∈ d.blocks ↔ y ∈ d'.blocks := by
    rw [split, split']
    refine head.mem_iff ?_
    rw [hy]
    exact (ne_of_distinct (split ▸ h.resources) hx).symm
  have hd : x ∈ d.blocks := by
    rw [split]
    simpa using (List.mem_append.1 hx).imp_right .inr
  obtain ⟨label, -, resource⟩ := h.resourceOf_eq hd pipeline
  rw [get?_reports_of_pipeline h hd pipeline,
    get?_reports_of_pipeline h' ((same x rfl).1 hd) pipeline]
  exact (pipelineReports_congr h h' (context_replace split head split' loader)
    (resource ▸ resourceFor_pipeline_ne label) same).symm

end

/-- Each resource of a document is taken up whatever the order of its blocks and whatever the bodies
of other pipelines, as long as these keep what other resources see of them. -/
theorem resources_independent {text : String} {file : Option String} {d : Document}
    (decoded : Document.decode text file = .ok d) (distinct : (d.blocks.map resourceOf).Nodup)
    (loader : Loader) :
    (∀ d' : Document, d.blocks.Perm d'.blocks →
      SameResources (ofDocument d loader) (ofDocument d' loader)) ∧
    ∀ before b after b', d.blocks = before ++ b :: after → b.type = "pipeline" → SameHead b b' →
      ∀ d' : Document, d'.blocks = before ++ b' :: after →
        (∀ name, b.label? 0 ≠ some name →
          (ofDocument d' loader).pipelines.get? name = (ofDocument d loader).pipelines.get? name) ∧
        ∀ x ∈ before ++ after, x.type = "pipeline" →
          (ofDocument d' loader).reports.get? (resourceOf x) =
            (ofDocument d loader).reports.get? (resourceOf x) := by
  have h := distinct_of_conforms (Document.conforms_of_decode decoded) distinct
  refine ⟨fun d' same => sameResources_of_perm h same loader, ?_⟩
  intro before b after b' split type head d' split'
  refine ⟨fun name other => ?_, fun x hx pipeline => ?_⟩
  · exact pipelines_replace h split head split' loader type other
  · exact reports_replace h split head split' loader hx pipeline

/-- Two pipelines and a trigger that runs the second. -/
def pairText : String :=
  "\x7bpipeline: \x7ba: \x7b\x7d, b: \x7btitle: t\x7d\x7d, " ++
    "trigger: \x7bhttp: \x7bt: \x7bpipeline: b\x7d\x7d\x7d\x7d"

theorem decode_pairText :
    ∃ d, Document.decode pairText none = .ok d ∧
      d.blocks.map resourceOf = ["pipeline.a", "pipeline.b", "trigger.http.t"] ∧
      d.blocks.map (·.type) = ["pipeline", "pipeline", "trigger"] ∧
      d.blocks.map (·.label? 0) = [some "a", some "b", some "http"] ∧
      (ofDocument d {}).pipelines.keys = ["a", "b"] := by
  decide +kernel

/-- The order does not matter, and a step without labels in the first pipeline leaves the second
as it is. -/
theorem resources_independent_pair :
    ∃ d b after, Document.decode pairText none = .ok d ∧ d.blocks = b :: after ∧
      SameResources (ofDocument d {}) (ofDocument ⟨d.blocks.reverse, []⟩ {}) ∧
      (ofDocument ⟨{ b with blocks := [.ofType "step" []] } :: after, []⟩ {}).pipelines.get? "b" =
        (ofDocument d {}).pipelines.get? "b" := by
  obtain ⟨d, decoded, resources, types, labels, -⟩ := decode_pairText
  obtain ⟨b, after, split, type, -⟩ := List.map_eq_cons_iff.1 types
  have label : b.label? 0 = some "a" := by
    rw [split] at labels
    exact (List.cons.inj labels).1
  obtain ⟨perm, replace⟩ := resources_independent decoded (by rw [resources]; decide) {}
  let broken : Block := { b with blocks := [.ofType "step" []] }
  obtain ⟨other, -⟩ := replace [] b after broken split type ⟨rfl, rfl, rfl, rfl⟩
    ⟨broken :: after, []⟩ rfl
  exact ⟨d, b, after, decoded, split, perm ⟨d.blocks.reverse, []⟩ d.blocks.reverse_perm.symm,
    other "b" (by rw [label]; decide)⟩

end Catalog
end PipelineResolution
