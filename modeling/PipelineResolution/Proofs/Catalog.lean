import PipelineResolution.Catalog
import PipelineResolution.Proofs.Pipeline.Schedulable

/-!
# The pipelines of a catalog

A document is read in an environment that binds `pipeline` alone. A pipeline enters the catalog under
its own name when its block decodes, and triggers leave the pipelines as they are.
-/
namespace PipelineResolution.Catalog
variable {c : Catalog} {ctx : ResolutionContext}

/-- Every pipeline was decoded from one of some blocks and stands under the name of its block. -/
def PipelinesFrom (c : Catalog) (bs : List Block) (ctx : ResolutionContext) : Prop :=
  ∀ entry ∈ c.pipelines, ∃ b ∈ bs, Pipeline.ofBlock b ctx = .ok entry.2 ∧ entry.1 = entry.2.name

theorem pipelines_report (c : Catalog) (resource : String) (ds : Diagnostics) :
    (c.report resource ds).pipelines = c.pipelines := by
  unfold report
  split <;> rfl

theorem decode_eq_ok {α : Type} {b : Block} {decoded : Except Diagnostics α} {a : α} :
    decode b decoded = .ok a ↔ b.allDiagnostics.hasErrors = false ∧ decoded = .ok a := by
  unfold decode
  cases b.allDiagnostics.hasErrors <;> simp

theorem PipelinesFrom.addPipeline {bs : List Block} (h : c.PipelinesFrom bs ctx) {b : Block}
    (hb : b ∈ bs) : (addPipeline ctx c b).PipelinesFrom bs ctx := by
  intro entry he
  unfold Catalog.addPipeline at he
  split at he
  · rw [pipelines_report] at he
    exact h entry he
  · rename_i p hp
    split at he
    · rw [pipelines_report] at he
      exact h entry he
    · rcases Dict.mem_insert he with rfl | he
      · exact ⟨b, hb, (decode_eq_ok.1 hp).2, rfl⟩
      · exact h entry he

theorem PipelinesFrom.addPipelines {bs : List Block} (h : c.PipelinesFrom bs ctx)
    {added : List Block} (sub : ∀ b ∈ added, b ∈ bs) :
    (added.foldl (Catalog.addPipeline ctx) c).PipelinesFrom bs ctx := by
  induction added generalizing c with
  | nil => exact h
  | cons b added ih =>
    obtain ⟨hb, sub⟩ := List.forall_mem_cons.1 sub
    exact ih (h.addPipeline hb) sub

theorem pipelines_addTrigger (c : Catalog) (b : Block) :
    (addTrigger ctx c b).pipelines = c.pipelines := by
  unfold addTrigger
  split
  · exact pipelines_report c _ _
  · dsimp only
    generalize b.allDiagnostics ++ _ ++ _ = ds
    split
    · exact pipelines_report c _ _
    · rfl

theorem pipelines_addTriggers (c : Catalog) (bs : List Block) :
    (bs.foldl (addTrigger ctx) c).pipelines = c.pipelines := by
  induction bs generalizing c with
  | nil => rfl
  | cons b bs ih => rw [List.foldl_cons, ih, pipelines_addTrigger]

/-- The context in which a document is read. -/
def contextOf (d : Document) (loader : Loader) : ResolutionContext :=
  { environment := definitions d.blocks, config := loader.config, wording := loader.wording }

theorem pipelinesFrom_ofDocument (d : Document) (loader : Loader) :
    (ofDocument d loader).PipelinesFrom (d.blocks.filter (·.type == "pipeline"))
      (contextOf d loader) := by
  intro entry he
  unfold ofDocument at he
  dsimp only at he
  rw [pipelines_addTriggers] at he
  refine PipelinesFrom.addPipelines (fun entry he => ?_) (fun _ hb => hb) entry he
  rw [pipelines_report] at he
  cases he

theorem binds_definitions (bs : List Block) {name : String} (h : "pipeline" ≠ name) :
    (definitions bs).binds name = false := by
  unfold Environment.binds Dict.contains definitions Environment.set
  rw [Dict.get?_insert, if_neg h]
  rfl

/-- Every pipeline that a text declares and that is taken up can be scheduled, whatever the text,
the configuration and the wording of reports. -/
theorem schedulable_of_ofText {text : String} {loader : Loader}
    (loaded : ofText text loader = .ok c) :
    ∃ d, Document.decode text loader.config.file = .ok d ∧
      ∀ entry ∈ c.pipelines, ∃ b ∈ d.blocks, b.type = "pipeline" ∧ b.label? 0 = some entry.1 ∧
        entry.2.name = entry.1 ∧ entry.2.Schedulable b (contextOf d loader) := by
  unfold ofText at loaded
  cases hd : Document.decode text loader.config.file with
  | error e =>
    rw [hd] at loaded
    cases loaded
  | ok d =>
    rw [hd] at loaded
    cases loaded
    refine ⟨d, rfl, fun entry he => ?_⟩
    obtain ⟨b, hb, decoded, name⟩ := pipelinesFrom_ofDocument d loader entry he
    obtain ⟨hb, type⟩ := List.mem_filter.1 hb
    obtain ⟨label, schedulable⟩ := Pipeline.schedulable_of_ofBlock
      (binds_definitions d.blocks (by decide)) (binds_definitions d.blocks (by decide)) decoded
    exact ⟨b, hb, by simpa using type, name ▸ label, name.symm, schedulable⟩

/-- A pipeline whose first step uses the output of its second. -/
def sleepingText : String :=
  "pipeline: \x7bp: \x7bstep: \x7btransform: \x7bt: \x7bvalue: '$\x7bstep.sleep.a.ok\x7d'\x7d\x7d, " ++
    "sleep: \x7ba: \x7bduration: 1\x7d\x7d\x7d\x7d\x7d"

theorem ofText_sleepingText :
    ∃ c, ofText sleepingText {} = .ok c ∧ c.pipelines.keys = ["p"] := by
  decide +kernel

/-- The pipeline is taken up, so it can be scheduled. -/
theorem schedulable_of_ofText_sleeping :
    ∃ c d p b, ofText sleepingText {} = .ok c ∧ ("p", p) ∈ c.pipelines ∧ b ∈ d.blocks ∧
      p.Schedulable b (contextOf d {}) := by
  obtain ⟨c, loaded, keys⟩ := ofText_sleepingText
  obtain ⟨d, -, schedulable⟩ := schedulable_of_ofText loaded
  obtain ⟨⟨name, p⟩, hp, rfl⟩ := List.mem_map.1 (keys ▸ List.mem_singleton.2 rfl)
  obtain ⟨b, hb, -, -, -, hs⟩ := schedulable _ hp
  exact ⟨c, d, p, b, loaded, hp, hb, hs⟩

end PipelineResolution.Catalog
