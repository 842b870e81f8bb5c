import PipelineResolution.Proofs.Catalog

/-!
# Taking up blocks in passes

A catalog takes up the blocks of one type in one pass, in the order of the document: a block puts an
entry under a new name or files reports under its resource. The first block that declares a name
without a report of its own has the name, and reports are never lost.
-/
namespace PipelineResolution.Catalog

/-- The reports with more under a resource. -/
def filed (reports : Dict Diagnostics) (resource : String) (ds : Diagnostics) : Dict Diagnostics :=
  if ds.isEmpty then reports else reports.insert resource ((reports.get? resource).getD [] ++ ds)

theorem report_eq (c : Catalog) (resource : String) (ds : Diagnostics) :
    c.report resource ds = { c with reports := filed c.reports resource ds } := by
  unfold report filed
  split <;> rfl

/-- Something under the resource is an error. -/
def Reported (reports : Dict Diagnostics) (resource : String) : Prop :=
  ∃ ds, reports.get? resource = some ds ∧ ds.hasErrors = true

/-- Nothing is reported as an error. -/
def Clean (reports : Dict Diagnostics) : Prop := ∀ resource, ¬ Reported reports resource

section
variable {reports : Dict Diagnostics} {resource other : String} {ds : Diagnostics}

theorem get?_filed :
    (filed reports resource ds).get? other =
      if resource = other ∧ ds ≠ [] then some ((reports.get? other).getD [] ++ ds)
      else reports.get? other := by
  unfold filed
  cases ds with
  | nil => simp
  | cons d ds =>
    rw [if_neg (by simp), Dict.get?_insert]
    by_cases h : resource = other
    · simp [h]
    · simp [h]

theorem get?_filed_of_ne (h : resource ≠ other) :
    (filed reports resource ds).get? other = reports.get? other := by
  rw [get?_filed, if_neg fun ⟨same, _⟩ => h same]

theorem sorted_filed (h : reports.Sorted) : (filed reports resource ds).Sorted := by
  unfold filed
  split
  · exact h
  · exact h.insert ..

theorem reported_filed (h : ds.hasErrors = true) : Reported (filed reports resource ds) resource := by
  have some : ds ≠ [] := by rintro rfl; cases h
  refine ⟨_, by rw [get?_filed, if_pos ⟨rfl, some⟩], ?_⟩
  rw [Diagnostics.hasErrors_append, h, Bool.or_true]

theorem Reported.filed (h : Reported reports other) (resource : String) (ds : Diagnostics) :
    Reported (filed reports resource ds) other := by
  obtain ⟨known, found, errors⟩ := h
  rw [Reported, get?_filed, found]
  split
  · exact ⟨_, rfl, by rw [Option.getD_some, Diagnostics.hasErrors_append, errors, Bool.true_or]⟩
  · exact ⟨known, rfl, errors⟩

theorem clean_filed : Clean (filed reports resource ds) ↔ Clean reports ∧ ds.hasErrors = false := by
  constructor
  · intro clean
    refine ⟨fun other h => clean other (h.filed resource ds), ?_⟩
    rw [← Bool.not_eq_true]
    exact fun h => clean resource (reported_filed h)
  · rintro ⟨clean, accepted⟩ other ⟨found, h, errors⟩
    rw [get?_filed] at h
    split at h
    · cases h
      rw [Diagnostics.hasErrors_append, accepted, Bool.or_false] at errors
      cases hk : reports.get? other with
      | none =>
        rw [hk] at errors
        cases errors
      | some known =>
        rw [hk] at errors
        exact clean other ⟨known, hk, errors⟩
    · exact clean other ⟨found, h, errors⟩

theorem isComplete_iff_clean {c : Catalog} (sorted : c.reports.Sorted) :
    c.isComplete = true ↔ Clean c.reports := by
  unfold isComplete Clean Reported
  simp only [List.all_eq_true, Bool.not_eq_true', not_exists, not_and, Bool.not_eq_true]
  constructor
  · intro h resource ds hds
    exact h ds (List.mem_map.2 ⟨_, Dict.mem_of_get? hds, rfl⟩)
  · intro h ds hds
    obtain ⟨⟨resource, ds⟩, he, rfl⟩ := List.mem_map.1 hds
    exact h resource ds (sorted.get?_of_mem he)

end

/-- How blocks of one type are taken up: what a block declares, under which name, and what is reported
about it when the name is free or taken. -/
structure Pass (α : Type) where
  type : String
  decoded : Block → Except Diagnostics α
  name : α → String
  check : α → Block → Bool → Diagnostics

namespace Pass
variable {α : Type} (P : Pass α)

structure State (α : Type) where
  entries : Dict α
  reports : Dict Diagnostics

/-- What a block puts beside some entries, or the reports that reject it. -/
def verdict (entries : Dict α) (b : Block) : Except Diagnostics α :=
  P.decoded b >>= fun a => (P.check a b (entries.contains (P.name a))).orValue a

def take (s : State α) (b : Block) : State α :=
  match P.verdict s.entries b with
  | .ok a => { s with entries := s.entries.insert (P.name a) a }
  | .error ds => { s with reports := filed s.reports (resourceOf b) ds }

/-- Blocks of other types are left out. -/
def run (s : State α) (bs : List Block) : State α :=
  (bs.filter (·.type == P.type)).foldl P.take s

/-- A block of the type declares something, and nothing is reported about it when the name is free. -/
structure Declares (b : Block) (a : α) : Prop where
  type : b.type = P.type
  decoded : P.decoded b = .ok a
  accepted : (P.check a b false).hasErrors = false

/-- What a block declares under a name. -/
def declares? (name : String) (b : Block) : Option α :=
  if b.type = P.type then (P.verdict [] b).toOption.filter fun a => P.name a = name else none

/-- A block that is rejected is rejected for an error, and a name is never given twice. -/
structure Lawful : Prop where
  rejected : ∀ b ds, P.decoded b = .error ds → ds.hasErrors = true
  taken : ∀ a b, (P.check a b true).hasErrors = true

variable {P} {s : State α} {b : Block} {a : α} {entries : Dict α} {name : String}

theorem verdict_eq_ok : P.verdict entries b = .ok a ↔
    P.decoded b = .ok a ∧ (P.check a b (entries.contains (P.name a))).hasErrors = false := by
  unfold verdict
  constructor
  · intro h
    obtain ⟨a', decoded, h⟩ := bind_eq_ok.1 h
    obtain ⟨checked, rfl⟩ := Diagnostics.orValue_eq_ok.1 h
    exact ⟨decoded, checked⟩
  · rintro ⟨decoded, checked⟩
    exact bind_eq_ok.2 ⟨a, decoded, Diagnostics.orValue_eq_ok.2 ⟨checked, rfl⟩⟩

theorem declares?_eq_some : P.declares? name b = some a ↔ P.Declares b a ∧ P.name a = name := by
  have own : P.verdict [] b = .ok a ↔ P.decoded b = .ok a ∧ (P.check a b false).hasErrors = false :=
    verdict_eq_ok
  unfold declares?
  constructor
  · intro h
    split at h
    · rename_i type
      obtain ⟨found, named⟩ := Option.filter_eq_some_iff.1 h
      cases hv : P.verdict [] b with
      | error ds =>
        rw [hv] at found
        cases found
      | ok a' =>
        rw [hv] at found
        obtain rfl := Option.some.inj found
        obtain ⟨decoded, accepted⟩ := own.1 hv
        exact ⟨⟨type, decoded, accepted⟩, by simpa using named⟩
    · cases h
  · rintro ⟨⟨type, decoded, accepted⟩, rfl⟩
    rw [if_pos type, own.2 ⟨decoded, accepted⟩]
    exact Option.filter_eq_some_iff.2 ⟨rfl, decide_eq_true rfl⟩

theorem take_of_ok (h : P.verdict s.entries b = .ok a) :
    P.take s b = { s with entries := s.entries.insert (P.name a) a } := by
  unfold take
  rw [h]

theorem take_of_error {ds : Diagnostics} (h : P.verdict s.entries b = .error ds) :
    P.take s b = { s with reports := filed s.reports (resourceOf b) ds } := by
  unfold take
  rw [h]

theorem run_append (before after : List Block) :
    P.run s (before ++ after) = P.run (P.run s before) after := by
  unfold run
  rw [List.filter_append, List.foldl_append]

theorem run_cons_of_type (type : b.type = P.type) (bs : List Block) :
    P.run s (b :: bs) = P.run (P.take s b) bs := by
  unfold run
  rw [List.filter_cons_of_pos (by simpa using type), List.foldl_cons]

theorem run_cons_of_ne (type : b.type ≠ P.type) (bs : List Block) :
    P.run s (b :: bs) = P.run s bs := by
  unfold run
  rw [List.filter_cons_of_neg (by simpa using type)]

/-- What every step keeps is kept by a run. -/
theorem run_preserves {I : State α → Prop}
    (step : ∀ s b, b.type = P.type → I s → I (P.take s b)) (bs : List Block) (h : I s) :
    I (P.run s bs) := by
  induction bs generalizing s with
  | nil => exact h
  | cons b bs ih =>
    by_cases type : b.type = P.type
    · rw [run_cons_of_type type]
      exact ih (step s b type h)
    · rw [run_cons_of_ne type]
      exact ih h

namespace Lawful
variable (h : P.Lawful)
include h

theorem verdict_eq_ok_iff (type : b.type = P.type) :
    P.verdict entries b = .ok a ↔ P.Declares b a ∧ entries.get? (P.name a) = none := by
  rw [verdict_eq_ok, ← Dict.contains_eq_false]
  cases known : entries.contains (P.name a) with
  | true => simp [h.taken a b]
  | false => exact ⟨fun ⟨decoded, accepted⟩ => ⟨⟨type, decoded, accepted⟩, rfl⟩,
      fun ⟨declared, _⟩ => ⟨declared.decoded, declared.accepted⟩⟩

theorem hasErrors_of_verdict {ds : Diagnostics} (rejected : P.verdict entries b = .error ds) :
    ds.hasErrors = true := by
  rcases bind_eq_error.1 rejected with hd | ⟨a, -, ha⟩
  · exact h.rejected b ds hd
  · exact Diagnostics.hasErrors_of_orValue ha

theorem get?_take (type : b.type = P.type) (name : String) :
    (P.take s b).entries.get? name = (s.entries.get? name).or (P.declares? name b) := by
  cases hv : P.verdict s.entries b with
  | ok a =>
    obtain ⟨declared, free⟩ := (h.verdict_eq_ok_iff type).1 hv
    rw [take_of_ok hv, Dict.get?_insert]
    split
    · rename_i same
      rw [declares?_eq_some.2 ⟨declared, same⟩, ← same, free]
      rfl
    · rename_i other
      cases hd : P.declares? name b with
      | none => exact (Option.or_none).symm
      | some a' =>
        obtain ⟨declared', rfl⟩ := declares?_eq_some.1 hd
        rw [declared.decoded.symm.trans declared'.decoded |> Except.ok.inj] at other
        exact absurd rfl other
  | error ds =>
    rw [take_of_error hv]
    cases hd : P.declares? name b with
    | none => exact (Option.or_none).symm
    | some a =>
      obtain ⟨declared, rfl⟩ := declares?_eq_some.1 hd
      cases free : s.entries.get? (P.name a) with
      | some _ => rfl
      | none =>
        rw [(h.verdict_eq_ok_iff type).2 ⟨declared, free⟩] at hv
        cases hv

theorem get?_run (name : String) (bs : List Block) :
    (P.run s bs).entries.get? name = (s.entries.get? name).or (bs.findSome? (P.declares? name)) := by
  induction bs generalizing s with
  | nil => exact (Option.or_none).symm
  | cons b bs ih =>
    rw [List.findSome?_cons]
    by_cases type : b.type = P.type
    · rw [run_cons_of_type type, ih, h.get?_take type, Option.or_assoc]
      cases P.declares? name b <;> rfl
    · rw [run_cons_of_ne type, ih, declares?, if_neg type]

/-- A name belongs to the first block that declares it. -/
theorem get?_run_eq_some_iff (empty : s.entries = []) {bs : List Block} :
    (P.run s bs).entries.get? name = some a ↔ ∃ before b after, bs = before ++ b :: after ∧
      P.Declares b a ∧ P.name a = name ∧ ∀ b' ∈ before, ∀ a', P.Declares b' a' → P.name a' ≠ name := by
  rw [h.get?_run, empty, Dict.get?, Option.none_or, List.findSome?_eq_some_iff]
  simp only [declares?_eq_some, Option.eq_none_iff_forall_ne_some, ne_eq, not_and, and_assoc]

/-- The same with what the blocks at hand declare put in other words. -/
theorem get?_run_iff_of_forall (empty : s.entries = []) {bs : List Block} {D : Block → α → Prop}
    (same : ∀ b ∈ bs, ∀ a, P.Declares b a ↔ D b a) :
    (P.run s bs).entries.get? name = some a ↔ ∃ before b after, bs = before ++ b :: after ∧
      D b a ∧ P.name a = name ∧ ∀ b' ∈ before, ∀ a', D b' a' → P.name a' ≠ name := by
  rw [h.get?_run_eq_some_iff empty]
  refine exists_congr fun before => exists_congr fun b => exists_congr fun after =>
    and_congr_right fun split => ?_
  rw [same b (by simp [split])]
  refine and_congr_right fun _ => and_congr_right fun _ => forall₂_congr fun b' hb' =>
    forall_congr' fun a' => imp_congr_left ?_
  exact same b' (by simp [split, hb']) a'

end Lawful

theorem Reported.run {resource : String} (hr : Reported s.reports resource) (bs : List Block) :
    Reported (P.run s bs).reports resource := by
  refine run_preserves (I := fun s => Reported s.reports resource) (fun s b _ hr => ?_) bs hr
  unfold take
  split
  · exact hr
  · exact hr.filed ..

theorem sorted_run (hs : s.reports.Sorted) (bs : List Block) : (P.run s bs).reports.Sorted := by
  refine run_preserves (I := fun s => s.reports.Sorted) (fun s b _ hs => ?_) bs hs
  unfold take
  split
  · exact hs
  · exact sorted_filed hs

/-- At its turn after the other blocks, the block puts an entry. -/
def Enters (P : Pass α) (s : State α) (before : List Block) (b : Block) (a : α) : Prop :=
  P.verdict (P.run s before).entries b = .ok a

/-- An entry that a block puts is new. -/
theorem Lawful.enters_iff (h : P.Lawful) {before : List Block} (type : b.type = P.type) :
    P.Enters s before b a ↔ (P.run s before).entries.get? (P.name a) = none ∧
      (P.run s (before ++ [b])).entries.get? (P.name a) = some a := by
  unfold Enters
  rw [h.verdict_eq_ok_iff type, run_append, run_cons_of_type type]
  change _ ↔ _ ∧ (P.take (P.run s before) b).entries.get? (P.name a) = some a
  rw [h.get?_take type, and_comm]
  refine and_congr_right fun free => ?_
  rw [free, Option.none_or, declares?_eq_some]
  exact ⟨fun declared => ⟨declared, rfl⟩, And.left⟩

/-- An entry stays. -/
theorem Lawful.get?_of_enters (h : P.Lawful) {before : List Block} (type : b.type = P.type)
    (enters : P.Enters s before b a) (after : List Block) :
    (P.run s (before ++ b :: after)).entries.get? (P.name a) = some a := by
  obtain ⟨-, entered⟩ := (h.enters_iff type).1 enters
  rw [List.append_cons, run_append, h.get?_run, entered]
  rfl

theorem Lawful.enters_or_reported (h : P.Lawful) (type : b.type = P.type)
    (before after : List Block) :
    (∃ a, P.Enters s before b a) ∨
      Reported (P.run s (before ++ b :: after)).reports (resourceOf b) := by
  cases hv : P.verdict (P.run s before).entries b with
  | ok a => exact .inl ⟨a, hv⟩
  | error ds =>
    refine .inr ?_
    rw [run_append, run_cons_of_type type]
    refine Reported.run ?_ after
    rw [take_of_error hv]
    exact reported_filed (h.hasErrors_of_verdict hv)

/-- No report is an error exactly when every block puts an entry. -/
theorem Lawful.clean_run (h : P.Lawful) (bs : List Block) :
    Clean (P.run s bs).reports ↔ Clean s.reports ∧
      ∀ before b after, bs = before ++ b :: after → b.type = P.type → ∃ a, P.Enters s before b a := by
  constructor
  · intro clean
    refine ⟨fun resource hr => clean resource (Reported.run hr bs), ?_⟩
    rintro before b after rfl type
    exact (h.enters_or_reported type before after).resolve_right (clean _)
  · induction bs generalizing s with
    | nil => exact fun hs => hs.1
    | cons b bs ih =>
      rintro ⟨clean, enters⟩
      by_cases type : b.type = P.type
      · obtain ⟨a, ha⟩ := enters [] b bs rfl type
        rw [run_cons_of_type type]
        refine ih ⟨?_, ?_⟩
        · rw [take_of_ok (s := s) ha]
          exact clean
        · rintro before b' after rfl type'
          unfold Enters
          rw [← run_cons_of_type type]
          exact enters (b :: before) b' after rfl type'
      · rw [run_cons_of_ne type]
        refine ih ⟨clean, ?_⟩
        rintro before b' after rfl type'
        unfold Enters
        rw [← run_cons_of_ne type]
        exact enters (b :: before) b' after rfl type'

end Pass

section
variable {ctx : ResolutionContext} {b : Block}

theorem hasErrors_of_decode {α : Type} {decoded : Except Diagnostics α} {ds : Diagnostics}
    (rejected : ∀ ds, decoded = .error ds → ds.hasErrors = true)
    (h : decode b decoded = .error ds) : ds.hasErrors = true := by
  unfold decode at h
  split at h
  · cases h
    assumption
  · exact rejected ds h

theorem hasErrors_of_pipeline {ds : Diagnostics} (h : Pipeline.ofBlock b ctx = .error ds) :
    ds.hasErrors = true := by
  unfold Pipeline.ofBlock at h
  split at h
  · cases h
    rfl
  · dsimp only at h
    split at h
    · cases h
      assumption
    · exact Diagnostics.hasErrors_of_orValue h

theorem hasErrors_of_trigger {ds : Diagnostics} (h : Trigger.ofBlock b ctx = .error ds) :
    ds.hasErrors = true := by
  unfold Trigger.ofBlock at h
  split at h
  · split at h
    · cases h
      rfl
    · exact Diagnostics.hasErrors_of_orValue h
  · cases h
    rfl

/-- A trigger that runs no unknown pipeline is not reported for it. -/
theorem hasErrors_unknownPipelines {c : Catalog} {t : Trigger} :
    (c.unknownPipelines t b).hasErrors = false ↔
      ∀ name ∈ t.pipelineNames, c.pipelines.contains name = true := by
  unfold unknownPipelines Diagnostics.hasErrors
  rw [List.any_map, List.any_eq_false]
  constructor
  · intro h name hn
    by_contra unknown
    exact h name (List.mem_filter.2 ⟨hn, by simpa using unknown⟩) rfl
  · intro h name hn
    obtain ⟨hn, unknown⟩ := List.mem_filter.1 hn
    rw [h name hn] at unknown
    cases unknown

/-- How the pipelines of a document are taken up. -/
def pipelinePass (ctx : ResolutionContext) : Pass Pipeline where
  type := "pipeline"
  decoded b := decode b (Pipeline.ofBlock b ctx)
  name := Pipeline.name
  check p b taken := if taken then [duplicate "pipeline" p.name b] else []

/-- How the triggers of a document are taken up, when its pipelines are known. -/
def triggerPass (ctx : ResolutionContext) (known : Dict Pipeline) : Pass Trigger where
  type := "trigger"
  decoded b := decode b (Trigger.ofBlock b ctx)
  name := Trigger.fullName
  check t b taken := b.allDiagnostics ++ unknownPipelines ⟨known, [], []⟩ t b
    ++ if taken then [duplicate "trigger" t.fullName b] else []

theorem lawful_pipelinePass (ctx : ResolutionContext) : (pipelinePass ctx).Lawful where
  rejected _ _ := hasErrors_of_decode fun _ => hasErrors_of_pipeline
  taken _ _ := rfl

theorem lawful_triggerPass (ctx : ResolutionContext) (known : Dict Pipeline) :
    (triggerPass ctx known).Lawful where
  rejected _ _ := hasErrors_of_decode fun _ => hasErrors_of_trigger
  taken t b := by
    rw [triggerPass, Diagnostics.hasErrors_append, Bool.or_eq_true]
    exact .inr rfl

theorem addPipeline_eq (c : Catalog) (b : Block) :
    let s := (pipelinePass ctx).take ⟨c.pipelines, c.reports⟩ b
    addPipeline ctx c b = { c with pipelines := s.entries, reports := s.reports } := by
  unfold addPipeline Pass.take Pass.verdict pipelinePass
  dsimp only
  cases decode b (Pipeline.ofBlock b ctx) with
  | error ds => exact report_eq ..
  | ok p =>
    cases taken : c.pipelines.contains p.name with
    | true =>
      simp only [bind, Except.bind, if_true, taken]
      exact report_eq ..
    | false => simp [bind, Except.bind, taken, Diagnostics.orValue, Diagnostics.hasErrors]

theorem addPipelines_eq (c : Catalog) (bs : List Block) :
    let s := bs.foldl (pipelinePass ctx).take ⟨c.pipelines, c.reports⟩
    bs.foldl (addPipeline ctx) c = { c with pipelines := s.entries, reports := s.reports } := by
  induction bs generalizing c with
  | nil => rfl
  | cons b bs ih =>
    change bs.foldl (addPipeline ctx) (addPipeline ctx c b) = _
    rw [addPipeline_eq]
    exact ih _

theorem addTrigger_eq (c : Catalog) (b : Block) :
    let s := (triggerPass ctx c.pipelines).take ⟨c.triggers, c.reports⟩ b
    addTrigger ctx c b = { c with triggers := s.entries, reports := s.reports } := by
  unfold addTrigger Pass.take Pass.verdict triggerPass
  dsimp only
  cases decode b (Trigger.ofBlock b ctx) with
  | error ds => exact report_eq ..
  | ok t =>
    -- The known pipelines are all that is read of the catalog.
    have known : c.unknownPipelines t b = unknownPipelines ⟨c.pipelines, [], []⟩ t b := rfl
    simp only [bind, Except.bind, Diagnostics.orValue, known]
    generalize b.allDiagnostics ++ unknownPipelines ⟨c.pipelines, [], []⟩ t b ++ _ = ds
    cases ds.hasErrors with
    | true => exact report_eq ..
    | false => rfl

theorem addTriggers_eq (c : Catalog) (bs : List Block) :
    let s := bs.foldl (triggerPass ctx c.pipelines).take ⟨c.triggers, c.reports⟩
    bs.foldl (addTrigger ctx) c = { c with triggers := s.entries, reports := s.reports } := by
  induction bs generalizing c with
  | nil => rfl
  | cons b bs ih =>
    change bs.foldl (addTrigger ctx) (addTrigger ctx c b) = _
    rw [addTrigger_eq]
    exact ih _

end

/-- The catalog of a document after the pipelines among some blocks. -/
def pipelinesAfter (d : Document) (loader : Loader) (bs : List Block) : Catalog :=
  (bs.filter (·.type == "pipeline")).foldl (addPipeline (contextOf d loader))
    (empty.report documentResource d.diagnostics)

/-- The catalog of a document after all its pipelines and the triggers among some blocks. -/
def triggersAfter (d : Document) (loader : Loader) (bs : List Block) : Catalog :=
  (bs.filter (·.type == "trigger")).foldl (addTrigger (contextOf d loader))
    (pipelinesAfter d loader d.blocks)

theorem ofDocument_eq (d : Document) (loader : Loader) :
    ofDocument d loader = triggersAfter d loader d.blocks := rfl

section
variable (d : Document) (loader : Loader) (bs : List Block)

/-- The pass over the pipelines of a document. -/
def pipelineState : Pass.State Pipeline :=
  (pipelinePass (contextOf d loader)).run ⟨[], filed [] documentResource d.diagnostics⟩ bs

/-- The pass over the triggers of a document, after all its pipelines. -/
def triggerState : Pass.State Trigger :=
  (triggerPass (contextOf d loader) (pipelineState d loader d.blocks).entries).run
    ⟨[], (pipelineState d loader d.blocks).reports⟩ bs

theorem pipelinesAfter_eq : pipelinesAfter d loader bs =
    ⟨(pipelineState d loader bs).entries, [], (pipelineState d loader bs).reports⟩ := by
  unfold pipelinesAfter
  rw [addPipelines_eq, report_eq]
  rfl

theorem triggersAfter_eq : triggersAfter d loader bs =
    ⟨(pipelineState d loader d.blocks).entries, (triggerState d loader bs).entries,
      (triggerState d loader bs).reports⟩ := by
  unfold triggersAfter
  rw [addTriggers_eq, pipelinesAfter_eq]
  rfl

end
end PipelineResolution.Catalog
