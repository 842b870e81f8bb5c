import PipelineResolution.Proofs.Step.Effects

/-!
# The order of attributes

Attributes under different plain names write to different places, so two neighbours can be swapped,
and a permutation is a sequence of swaps. What is left of the order is that in which the targets to
wait for were found, and the order of the reports. Everything after the attributes is blind to both.
-/
namespace PipelineResolution

/-- A name without dots is not addressed to an inner block. -/
theorem Text.dropStart?_eq_none {start name : String} (dotted : '.' ∈ start.toList)
    (plain : '.' ∉ name.toList) : dropStart? start name = none := by
  rw [Option.eq_none_iff_forall_not_mem]
  intro rest h
  refine plain ?_
  rw [eq_of_dropStart? h, String.toList_append]
  exact List.mem_append_left _ dotted

theorem StepKind.place_of_plain {kind : StepKind} {name : String} (plain : '.' ∉ name.toList) :
    kind.place name = .own name := by
  have none_of {start : String} (dotted : '.' ∈ start.toList) : Text.dropStart? start name = none :=
    Text.dropStart?_eq_none dotted plain
  have target : notifyTarget name = name := by
    rw [notifyTarget, none_of (by decide)]
    rfl
  cases kind with
  | http =>
    change ((HttpRequest.authName? name).map _).getD _ = _
    rw [HttpRequest.authName?, none_of (by decide)]
    rfl
  | input =>
    change ((InputRequest.optionName? name).map _).getD _ = _
    rw [InputRequest.optionName?, none_of (by decide), target]
    rfl
  | message => exact congrArg Place.own target
  | sleep | email | transform | query | pipeline | function | container => rfl

/-- Headings that say different things can be put over each other in any order. -/
theorem Heading.over_comm {m n : String} {p q : Heading} (hp : p.Under m) (hq : q.Under n)
    (ne : m ≠ n) : p.over q = q.over p := by
  have swap {α : Type} {x y : Option α} {field : String} (hx : m ≠ field → x = none)
      (hy : n ≠ field → y = none) : x.or y = y.or x := by
    by_cases hm : m = field
    · rw [hy fun hn => ne (hm.trans hn.symm), Option.or_none, Option.none_or]
    · rw [hx hm, Option.or_none, Option.none_or]
  simp only [Heading.over, swap hp.title hq.title, swap hp.description hq.description,
    swap hp.timeout hq.timeout, swap hp.condition hq.condition, swap hp.forEach hq.forEach]

namespace Write
variable {f g : Write} {fs gs : List Write} {m n : String} {x : Intake}

/-- A plain name and another one are written in any order. -/
theorem apply_comm_of_ne (hf : f.Under m) (hg : g.Under n) (ne : m ≠ n) (hm : '.' ∉ m.toList)
    (hn : '.' ∉ n.toList) (sorted : x.deferred.Sorted) :
    g.apply (f.apply x) = f.apply (g.apply x) := by
  have place : x.spec.kind.place m = .own m := StepKind.place_of_plain hm
  have other : x.spec.kind.place n = .own n := StepKind.place_of_plain hn
  cases f with
  | declare => cases hf
  | store _ v =>
    cases hf
    cases g with
    | declare => cases hg
    | keep => rfl
    | store _ w =>
      cases hg
      have apart : x.spec.kind.place m ≠ x.spec.kind.place n := by
        rw [place, other]
        exact fun same => ne (Place.own.inj same)
      have open_m : x.spec.Opens (x.spec.kind.place m) := by
        rw [place]
        exact fun _ h => nomatch h
      exact congrArg (Intake.mk · x.deferred) (StepSpec.store_comm apart open_m).symm
  | keep _ e =>
    cases hf
    cases g with
    | declare => cases hg
    | store => rfl
    | keep _ e' =>
      cases hg
      exact congrArg (Intake.mk x.spec) (sorted.insert_comm ne e e')

theorem run_apply_comm_of_ne (hf : f.Under m) (hgs : ∀ g ∈ gs, g.Under n) (ne : m ≠ n)
    (hm : '.' ∉ m.toList) (hn : '.' ∉ n.toList) (sorted : x.deferred.Sorted) :
    run gs (f.apply x) = f.apply (run gs x) := by
  induction gs generalizing x with
  | nil => rfl
  | cons g gs ih =>
    obtain ⟨hg, hgs⟩ := List.forall_mem_cons.1 hgs
    rw [run_cons, apply_comm_of_ne hf hg ne hm hn sorted, ih hgs (sorted_apply g sorted), run_cons]

theorem run_comm (hfs : ∀ f ∈ fs, f.Under m) (hgs : ∀ g ∈ gs, g.Under n) (ne : m ≠ n)
    (hm : '.' ∉ m.toList) (hn : '.' ∉ n.toList) (sorted : x.deferred.Sorted) :
    run gs (run fs x) = run fs (run gs x) := by
  induction fs generalizing x with
  | nil => rfl
  | cons f fs ih =>
    obtain ⟨hf, hfs⟩ := List.forall_mem_cons.1 hfs
    rw [run_cons, ih hfs (sorted_apply f sorted), run_apply_comm_of_ne hf hgs ne hm hn sorted,
      run_cons]

end Write

namespace Diagnostics
variable {σ α : Type} {R : σ → σ → Prop} {f : σ → α → σ × Diagnostics} {s t : σ}

/-- Related states stay related, and the reports are the same. -/
theorem gather_related
    (step : ∀ s t a, R s t → R (f s a).1 (f t a).1 ∧ (f t a).2 = (f s a).2) (as : List α)
    (h : R s t) : R (gather f s as).1 (gather f t as).1 ∧ (gather f t as).2 = (gather f s as).2 := by
  induction as generalizing s t with
  | nil => exact ⟨h, rfl⟩
  | cons a as ih =>
    obtain ⟨related, same⟩ := step s t a h
    obtain ⟨rest, reports⟩ := ih related
    exact ⟨rest, congrArg₂ (· ++ ·) same reports⟩

end Diagnostics

namespace Step
variable {s s' s'' : Step} {ctx : ResolutionContext} {kind : StepKind} {name : String}
  {F : Step → Step × Diagnostics}

/-- The same step, but for the order in which it found its dependencies. -/
def Rearranged (s s' : Step) : Prop :=
  ∃ d : DependencySet, s' = { s with dependencies := d } ∧ ∀ edge, edge ∈ d ↔ edge ∈ s.dependencies

theorem Rearranged.refl (s : Step) : s.Rearranged s := ⟨s.dependencies, rfl, fun _ => .rfl⟩

theorem Rearranged.trans (h : s.Rearranged s') (h' : s'.Rearranged s'') : s.Rearranged s'' := by
  obtain ⟨d, rfl, first⟩ := h
  obtain ⟨e, rfl, second⟩ := h'
  exact ⟨e, rfl, fun edge => (second edge).trans (first edge)⟩

theorem Rearranged.kind_eq (h : s.Rearranged s') : s'.kind = s.kind := by
  obtain ⟨d, rfl, -⟩ := h
  rfl

/-- A change that is blind to the order of the dependencies. -/
def Blind (F : Step → Step × Diagnostics) : Prop :=
  ∀ s s', s.Rearranged s' → (F s).1.Rearranged (F s').1 ∧ (F s').2 = (F s).2

theorem Rearranged.on (h : s.Rearranged s') (e : Effect) : (e.on s).Rearranged (e.on s') := by
  obtain ⟨d, rfl, same⟩ := h
  refine ⟨e.edges.foldl .add d, rfl, fun edge => ?_⟩
  rw [DependencySet.mem_foldl_add, same]
  exact DependencySet.mem_foldl_add.symm

theorem Blind.of_acts (h : ∀ kind, ∃ name, Acts kind name F) : Blind F := by
  intro s s' rearranged
  obtain ⟨name, e, -, acts⟩ := h s.kind
  rw [acts s rfl, acts s' rearranged.kind_eq]
  exact ⟨rearranged.on e, rfl⟩

theorem Rearranged.depending (h : s.Rearranged s') (more : DependencySet) :
    (s.depending more).Rearranged (s'.depending more) := by
  obtain ⟨d, rfl, same⟩ := h
  refine ⟨d.merge more, rfl, fun edge => ?_⟩
  rw [DependencySet.mem_merge, same]
  exact DependencySet.mem_merge.symm

/-- A change of something else than the dependencies. -/
theorem Rearranged.change {P : Step → Step} (h : s.Rearranged s')
    (other : ∀ s : Step, ∀ d, P { s with dependencies := d } = { P s with dependencies := d })
    (kept : ∀ s, (P s).dependencies = s.dependencies) : (P s).Rearranged (P s') := by
  obtain ⟨d, rfl, same⟩ := h
  exact ⟨d, other s d, fun edge => by rw [same, kept]⟩

theorem Rearranged.check_eq (h : s.Rearranged s') : s'.check = s.check := by
  obtain ⟨d, rfl, -⟩ := h
  rfl

theorem Rearranged.released (h : s.Rearranged s') : s.released.Rearranged s'.released := by
  obtain ⟨d, rfl, same⟩ := h
  refine ⟨d.removeStep s.fullName, rfl, fun edge => ?_⟩
  rw [DependencySet.mem_removeStep, same]
  exact DependencySet.mem_removeStep.symm

theorem blind_setLoop (b : Block) : Blind (·.setLoop b ctx) := by
  intro s s' h
  have kept : s'.kind = s.kind := h.kind_eq
  simp only [setLoop, kept]
  cases Loop.ofBlock b s.kind ctx with
  | error ds => exact ⟨h, rfl⟩
  | ok found =>
    exact ⟨(h.depending found.2).change (P := fun s => { s with loop := some found.1 })
      (fun _ _ => rfl) fun _ => rfl, rfl⟩

theorem blind_setPolicy {α : Type} (b : Block) (r : Resolution α) (put : α → Step → Step)
    (other : ∀ p (s : Step) d, put p { s with dependencies := d } = { put p s with dependencies := d })
    (kept : ∀ p s, (put p s).dependencies = s.dependencies) : Blind (·.setPolicy b r put) := by
  intro s s' h
  have grown := h.depending r.dependencies
  unfold setPolicy
  cases r.outcome with
  | resolved p => exact ⟨grown.change (other p) (kept p), rfl⟩
  | deferred =>
    exact ⟨grown.change
      (P := fun s => { s with deferredBodies := s.deferredBodies.insert b.type b })
      (fun _ _ => rfl) fun _ => rfl, rfl⟩
  | failed ds => exact ⟨grown, rfl⟩

theorem blind_addThrow (b : Block) : Blind (·.addThrow b ctx) := by
  intro s s' h
  unfold addThrow
  cases Throw.ofBlock b ctx with
  | error ds => exact ⟨h, rfl⟩
  | ok found =>
    exact ⟨(h.depending found.2).change (P := fun s => { s with throws := s.throws ++ [found.1] })
      (fun _ _ => rfl) fun _ => rfl, rfl⟩

theorem blind_addOutput (b : Block) : Blind (·.addOutput b ctx) := by
  intro s s' h
  obtain ⟨d, rfl, -⟩ := id h
  unfold addOutput
  cases NamedOutput.ofBlock b ctx with
  | error ds => exact ⟨h, rfl⟩
  | ok o =>
    dsimp only
    split
    · exact ⟨h, rfl⟩
    · exact ⟨(h.depending o.dependencies).change
        (P := fun s => { s with outputs := s.outputs.insert o.name o })
        (fun _ _ => rfl) fun _ => rfl, rfl⟩

theorem acts_setInner (b : Block) (a : Attribute) :
    Acts kind (b.innerName a.name) (setInner ctx b · a) := by
  by_cases owned : kind.accepts (b.innerName a.name) = true
  · have sets : Acts kind (b.innerName a.name) (·.setOfKind (b.innerName a.name) a ctx) :=
      acts_setOfKind _ a
    refine sets.congr fun s hk => ?_
    rw [setInner_eq, hk, if_pos owned]
  · refine (Acts.reporting [Block.unsupportedAttribute a b.type]).congr fun s hk => ?_
    rw [setInner_eq, hk, if_neg owned]

theorem blind_setKindBlock (b : Block) : Blind (·.setKindBlock b ctx) := by
  intro s s' h
  have opened := h.change (P := fun s => { s with spec := s.spec.openBlock b.type b.labels })
    (fun _ _ => rfl) fun _ => rfl
  obtain ⟨rearranged, same⟩ := Diagnostics.gather_related (f := setInner ctx b)
    (fun s s' a h => Blind.of_acts (fun kind => ⟨_, acts_setInner b a⟩) s s' h) b.attributes opened
  exact ⟨rearranged, congrArg (· ++ b.blocks.map (·.unsupportedBlock b.type)) same⟩

theorem blind_setBlock (b : Block) : Blind (·.setBlock b ctx) := by
  intro s s' h
  have kept : s'.kind = s.kind := h.kind_eq
  simp only [setBlock, kept]
  split
  · exact blind_setLoop b s s' h
  · exact blind_setPolicy b _ (fun p s => { s with retry := some p }) (fun _ _ _ => rfl)
      (fun _ _ => rfl) s s' h
  · exact blind_setPolicy b _ (fun p s => { s with failure := some p }) (fun _ _ _ => rfl)
      (fun _ _ => rfl) s s' h
  · exact blind_addThrow b s s' h
  · exact blind_addOutput b s s' h
  · split
    · exact blind_setKindBlock b s s' h
    · exact ⟨h, rfl⟩

theorem blind_setBlockOnce (inner : Block) {state state' : Step × List String}
    (h : state.1.Rearranged state'.1 ∧ state'.2 = state.2) :
    ((setBlockOnce ctx state inner).1.1.Rearranged (setBlockOnce ctx state' inner).1.1 ∧
        (setBlockOnce ctx state' inner).1.2 = (setBlockOnce ctx state inner).1.2) ∧
      (setBlockOnce ctx state' inner).2 = (setBlockOnce ctx state inner).2 := by
  obtain ⟨s, seen⟩ := state
  obtain ⟨s', seen'⟩ := state'
  obtain ⟨h, rfl⟩ := h
  unfold setBlockOnce
  dsimp only
  split
  · exact ⟨⟨h, rfl⟩, rfl⟩
  · obtain ⟨rearranged, same⟩ := blind_setBlock inner s s' h
    exact ⟨⟨rearranged, rfl⟩, same⟩

theorem blind_setBlocks (ctx : ResolutionContext) (b : Block) : Blind (·.setBlocks b ctx) := by
  intro s s' h
  obtain ⟨⟨rearranged, -⟩, same⟩ := Diagnostics.gather_related (f := setBlockOnce ctx)
    (R := fun state state' => state.1.Rearranged state'.1 ∧ state'.2 = state.2)
    (fun _ _ inner h => blind_setBlockOnce inner h) b.blocks (s := (s, [])) (t := (s', [])) ⟨h, rfl⟩
  exact ⟨rearranged, same⟩

/-- The effects of attributes with plain names can be swapped. -/
theorem rearranged_on_on {e f : Effect} {m n : String} (he : e.Under m) (hf : f.Under n)
    (ne : m ≠ n) (hm : '.' ∉ m.toList) (hn : '.' ∉ n.toList) (sorted : s.deferred.Sorted) :
    (f.on (e.on s)).Rearranged (e.on (f.on s)) := by
  have settings : Write.run f.writes (Write.run e.writes s.intake) =
      Write.run e.writes (Write.run f.writes s.intake) :=
    Write.run_comm he.writes hf.writes ne hm hn sorted
  have heading : (s.headed e.heading).headed f.heading = (s.headed f.heading).headed e.heading := by
    rw [headed_headed, headed_headed, Heading.over_comm he.heading hf.heading ne]
  let d := e.edges.foldl .add (f.edges.foldl .add s.dependencies)
  refine ⟨d, ?_, fun edge => ?_⟩
  · calc e.on (f.on s)
      _ = ((s.headed f.heading).headed e.heading).taking
          (Write.run e.writes (Write.run f.writes s.intake)) d := rfl
      _ = ((s.headed e.heading).headed f.heading).taking
          (Write.run f.writes (Write.run e.writes s.intake)) d := by rw [← heading, ← settings]
      _ = ({ f.on (e.on s) with dependencies := d } : Step) := rfl
  · change edge ∈ d ↔ edge ∈ f.edges.foldl .add (e.edges.foldl .add s.dependencies)
    simp only [d, DependencySet.mem_foldl_add]
    exact or_right_comm

/-- In another order the attributes of a body leave the same step but for the order of what it
waits for, and the same reports. -/
theorem gather_setAttribute_perm (ctx : ResolutionContext) {as bs : List Attribute} (perm : as.Perm bs)
    (distinct : (as.map (·.name)).Nodup) (plain : ∀ a ∈ as, '.' ∉ a.name.toList)
    (sorted : s.deferred.Sorted) :
    (Diagnostics.gather (setAttribute ctx) s as).1.Rearranged
        (Diagnostics.gather (setAttribute ctx) s bs).1 ∧
      (Diagnostics.gather (setAttribute ctx) s as).2.Perm
        (Diagnostics.gather (setAttribute ctx) s bs).2 := by
  have sorted_after {s : Step} (a : Attribute) (sorted : s.deferred.Sorted) :
      (setAttribute ctx s a).1.deferred.Sorted := by
    obtain ⟨e, -, acts⟩ := exists_effect ctx a s.kind
    rw [acts s rfl]
    exact Write.sorted_run e.writes (x := s.intake) sorted
  induction perm generalizing s with
  | nil => exact ⟨.refl s, .refl _⟩
  | cons a _ ih =>
    obtain ⟨-, distinct⟩ := List.nodup_cons.1 distinct
    obtain ⟨-, plain⟩ := List.forall_mem_cons.1 plain
    obtain ⟨rearranged, reports⟩ := ih distinct plain (sorted_after a sorted)
    exact ⟨rearranged, reports.append_left _⟩
  | swap a b as =>
    have ne : b.name ≠ a.name := fun same => by simp [same] at distinct
    obtain ⟨e, he, first⟩ := exists_effect ctx b s.kind
    obtain ⟨f, hf, second⟩ := exists_effect ctx a s.kind
    have swapped : (f.on (e.on s)).Rearranged (e.on (f.on s)) :=
      rearranged_on_on he hf ne (plain b (by simp)) (plain a (by simp)) sorted
    obtain ⟨rearranged, same⟩ := Diagnostics.gather_related (f := setAttribute ctx)
      (fun s s' a h => Blind.of_acts (fun kind => ⟨_, acts_setAttribute a⟩) s s' h) as swapped
    simp only [Diagnostics.gather, first s rfl, second s rfl, first _ (f.kind_on s),
      second _ (e.kind_on s)]
    refine ⟨rearranged, ?_⟩
    rw [same, ← List.append_assoc, ← List.append_assoc]
    exact List.perm_append_comm.append_right _
  | trans first second ih ih' =>
    obtain ⟨rearranged, reports⟩ := ih distinct plain sorted
    obtain ⟨rearranged', reports'⟩ := ih' ((first.map _).nodup_iff.1 distinct)
      (fun a ha => plain a (first.mem_iff.2 ha)) sorted
    exact ⟨rearranged.trans rearranged', reports.trans reports'⟩

/-- The same answer, but for the order in which the dependencies or the reports were found. -/
inductive SameButOrder : Except Diagnostics Step → Except Diagnostics Step → Prop
  | ok (s : Step) {d : DependencySet} (steps : d.steps.Perm s.dependencies.steps)
      (credentials : d.credentials.Perm s.dependencies.credentials) :
      SameButOrder (.ok s) (.ok { s with dependencies := d })
  | error {ds ds' : Diagnostics} (reports : ds.Perm ds') : SameButOrder (.error ds) (.error ds')

theorem sameButOrder_orValue {ds ds' : Diagnostics} (reports : ds.Perm ds') (h : s.Rearranged s')
    (distinct : s.dependencies.Distinct) (distinct' : s'.dependencies.Distinct) :
    SameButOrder (ds.orValue s) (ds'.orValue s') := by
  obtain ⟨d, rfl, same⟩ := h
  have errors : ds'.hasErrors = ds.hasErrors := reports.any_eq.symm
  unfold Diagnostics.orValue
  rw [errors]
  split
  · exact .error reports
  · refine .ok s ?_ ?_
    · exact (List.perm_ext_iff_of_nodup distinct'.steps distinct.steps).2
        fun target => same ⟨.step, target⟩
    · exact (List.perm_ext_iff_of_nodup distinct'.credentials distinct.credentials).2
        fun target => same ⟨.credential, target⟩

variable {b : Block} {as : List Attribute} {pipeline : String}

theorem takeIn_perm (ctx : ResolutionContext) (s : Step) (distinct : (b.attributes.map (·.name)).Nodup)
    (plain : ∀ a ∈ b.attributes, '.' ∉ a.name.toList) (perm : as.Perm b.attributes)
    (sorted : s.deferred.Sorted) :
    (s.takeIn b ctx).1.Rearranged (s.takeIn { b with attributes := as } ctx).1 ∧
      (s.takeIn b ctx).2.Perm (s.takeIn { b with attributes := as } ctx).2 := by
  obtain ⟨body, reports⟩ := gather_setAttribute_perm ctx perm.symm distinct plain sorted
  obtain ⟨blocks, same⟩ := blind_setBlocks ctx b _ _ body
  refine ⟨blocks, ?_⟩
  have more : (s.takeIn { b with attributes := as } ctx).2 =
      (s.setAttributes { b with attributes := as } ctx).2 ++
        ((s.setAttributes b ctx).1.setBlocks b ctx).2 := congrArg (_ ++ ·) same
  rw [more]
  exact reports.append_right _

/-- A permutation of the attributes of a step, which have different plain names, is accepted or
rejected as the step is; it makes the same step but for the order of its dependencies, or the same
reports but for their order. -/
theorem ofBlock_perm (distinct : (b.attributes.map (·.name)).Nodup)
    (plain : ∀ a ∈ b.attributes, '.' ∉ a.name.toList) (perm : as.Perm b.attributes)
    (pipeline : String) (ctx : ResolutionContext) :
    SameButOrder (ofBlock b pipeline ctx) (ofBlock { b with attributes := as } pipeline ctx) := by
  match labels : b.labels with
  | [word, name] =>
    cases known : Keyword.parse StepKind word with
    | error e =>
      simp only [ofBlock, labels, known]
      exact .error (.refl _)
    | ok kind =>
      obtain ⟨taken, reports⟩ := takeIn_perm ctx (start b kind name pipeline)
        distinct plain perm List.Pairwise.nil
      rw [← labels, ofBlock_eq labels known, ofBlock_eq (b := { b with attributes := as }) labels known]
      refine sameButOrder_orValue ?_ taken.released (distinct_released b kind name pipeline)
        (distinct_released { b with attributes := as } kind name pipeline)
      exact taken.check_eq ▸ reports.append_right _
  | [] | [_] | _ :: _ :: _ :: _ =>
    simp only [ofBlock, labels]
    exact .error (.refl _)

/-- A request that takes its address from one step and its body from another. -/
def forwardingBlock : Block where
  type := "step"
  labels := ["http", "forward"]
  attributes := [
    ⟨"url", .term (.access (.variable "step") [.member "query", .member "address",
      .member "url"]), default⟩,
    ⟨"request_body", .term (.access (.variable "step") [.member "transform", .member "shape",
      .member "value"]), default⟩,
    ⟨"method", .literal (.string "post"), default⟩]
  blocks := []
  location := default
  diagnostics := []

theorem ofBlock_perm_forwarding :
    (∃ s, ofBlock forwardingBlock "p" ⟨.empty, {}, .plain, .brief⟩ = .ok s ∧
        s.dependencies.steps = ["query.address", "transform.shape"]) ∧
      (∃ s, ofBlock { forwardingBlock with attributes := forwardingBlock.attributes.reverse } "p"
          ⟨.empty, {}, .plain, .brief⟩ = .ok s ∧
        s.dependencies.steps = ["transform.shape", "query.address"]) ∧
      SameButOrder (ofBlock forwardingBlock "p" ⟨.empty, {}, .plain, .brief⟩)
        (ofBlock { forwardingBlock with attributes := forwardingBlock.attributes.reverse } "p"
          ⟨.empty, {}, .plain, .brief⟩) :=
  ⟨by decide, by decide,
    ofBlock_perm (by decide) (by decide) (List.reverse_perm _) "p" ⟨.empty, {}, .plain, .brief⟩⟩

end Step
end PipelineResolution
