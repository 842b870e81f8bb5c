import PipelineResolution.Proofs.Resolution.Body
import PipelineResolution.Proofs.Step.Aside
import PipelineResolution.Proofs.Step.Places

/-!
# A block as moves

Of all that a block says, only its attributes of the step's kind reach the settings. What they do
there is a list of moves, run one after the other from the empty settings; everything else in the
block leaves the settings alone.
-/
namespace PipelineResolution

inductive Move where
  /-- A common attribute, which waits where it is deferred. -/
  | wait (a : Attribute)
  | open (type : String) (labels : List String)
  /-- An attribute of the kind, under its full name. -/
  | set (name : String) (a : Attribute)

namespace Move

def run (ctx : ResolutionContext) (x : Intake) : Move → Option Intake
  | .wait a =>
    some (if (a.resolve ctx).isDeferred then
      { x with deferred := x.deferred.insert a.name a.expression } else x)
  | .open type labels => some { x with spec := x.spec.openBlock type labels }
  | .set name a =>
    match (a.resolve ctx).outcome with
    | .resolved v => (x.spec.set name v).toOption.map fun spec => { x with spec }
    | .deferred => some { x with deferred := x.deferred.insert name a.expression }
    | .failed _ => none

def runAll (ctx : ResolutionContext) (ms : List Move) (x : Intake) : Option Intake :=
  ms.foldlM (run ctx) x

/-- The move with the expression of its attribute replaced. -/
def map (g : String → Expression → Expression) : Move → Move
  | .wait a => .wait { a with expression := g a.name a.expression }
  | .open type labels => .open type labels
  | .set name a => .set name { a with expression := g name a.expression }

variable {ctx : ResolutionContext} {x y z : Intake} {m : Move} {ms ns : List Move}

theorem runAll_cons : runAll ctx (m :: ms) x = (m.run ctx x).bind (runAll ctx ms) := List.foldlM_cons ..

theorem runAll_singleton : runAll ctx [m] x = m.run ctx x := by
  rw [runAll_cons]
  cases m.run ctx x <;> rfl

theorem runAll_append : runAll ctx (ms ++ ns) x = (runAll ctx ms x).bind (runAll ctx ns) :=
  List.foldlM_append

theorem run_set_of_resolved {name : String} {a : Attribute} {v : Value}
    (h : (a.resolve ctx).outcome = .resolved v) : (set name a).run ctx x = some y ↔
      x.spec.kind.Fits name v ∧ y = { x with spec := x.spec.store name v } := by
  simp only [run, h]
  cases hs : x.spec.set name v with
  | error m =>
    refine ⟨nofun, fun ⟨fits, _⟩ => ?_⟩
    rw [StepSpec.set_eq_ok.2 ⟨fits, rfl⟩] at hs
    cases hs
  | ok spec =>
    obtain ⟨fits, rfl⟩ := StepSpec.set_eq_ok.1 hs
    exact ⟨fun h => ⟨fits, (Option.some.inj h).symm⟩, fun ⟨_, h⟩ => h ▸ rfl⟩

theorem run_set_of_deferred {name : String} {a : Attribute} (h : (a.resolve ctx).outcome = .deferred) :
    (set name a).run ctx x = some { x with deferred := x.deferred.insert name a.expression } := by
  simp only [run, h]

/-- An attribute is stored, or else it waits. -/
theorem run_set_cases {name : String} {a : Attribute} (h : (set name a).run ctx x = some y) :
    (∃ v, (a.resolve ctx).outcome = .resolved v ∧ x.spec.kind.Fits name v ∧
      y = { x with spec := x.spec.store name v }) ∨
    (a.resolve ctx).outcome = .deferred ∧
      y = { x with deferred := x.deferred.insert name a.expression } := by
  cases ho : (a.resolve ctx).outcome with
  | resolved v =>
    obtain ⟨fits, rfl⟩ := (run_set_of_resolved ho).1 h
    exact .inl ⟨v, rfl, fits, rfl⟩
  | deferred => exact .inr ⟨rfl, Option.some.inj (h.symm.trans (run_set_of_deferred ho))⟩
  | failed ds =>
    simp only [run, ho] at h
    cases h

theorem runAll_preserves {I : Intake → Prop}
    (step : ∀ m ∈ ms, ∀ x y, I x → m.run ctx x = some y → I y) (hx : I x)
    (h : runAll ctx ms x = some y) : I y := by
  induction ms generalizing x with
  | nil =>
    cases h
    exact hx
  | cons m ms ih =>
    obtain ⟨first, rest⟩ := List.forall_mem_cons.1 step
    obtain ⟨z, hz, hy⟩ := Option.bind_eq_some_iff.1 (runAll_cons.symm.trans h)
    exact ih rest (first x z hx hz) hy

theorem kind_run (h : m.run ctx x = some y) : y.spec.kind = x.spec.kind := by
  cases m with
  | wait a =>
    cases h
    split <;> rfl
  | «open» type labels =>
    cases h
    rfl
  | set name a => obtain ⟨v, -, -, rfl⟩ | ⟨-, rfl⟩ := run_set_cases h <;> rfl

theorem kind_runAll (h : runAll ctx ms x = some y) : y.spec.kind = x.spec.kind :=
  runAll_preserves (I := fun y => y.spec.kind = x.spec.kind)
    (fun _ _ _ _ hz hm => (kind_run hm).trans hz) rfl h

end Move

/-- The common attributes that may wait for run time. -/
def Step.waitingNames : List String := ["title", "description", "if", "timeout"]

theorem Step.common_of_waiting {name : String} (h : name ∈ waitingNames) : name ∈ commonNames := by
  revert name
  decide

/-- What an attribute of a step's block does to the settings. -/
def Attribute.moves (kind : StepKind) (a : Attribute) : List Move :=
  if Step.commonNames.contains a.name then
    if a.name == "depends_on" || a.name == "for_each" then [] else [.wait a]
  else if kind.accepts a.name then [.set a.name a] else []

namespace Block

/-- The full name of an attribute of an inner block. -/
def innerName (b : Block) (name : String) : String :=
  ".".intercalate (b.type :: b.labels) ++ "." ++ name

/-- What an attribute of an inner block does to the settings. -/
def attributeMoves (b : Block) (kind : StepKind) (a : Attribute) : List Move :=
  if kind.accepts (b.innerName a.name) then [.set (b.innerName a.name) a] else []

/-- What an inner block does to the settings. -/
def innerMoves (kind : StepKind) (b : Block) : List Move :=
  if kind.acceptsBlock b.type then
    .open b.type b.labels :: b.attributes.flatMap (b.attributeMoves kind)
  else []

/-- An inner block of the kind with its expressions replaced, by the full names of the attributes. -/
def mapInner (kind : StepKind) (g : String → Expression → Expression) (b : Block) : Block :=
  if kind.acceptsBlock b.type then
    { b with attributes := b.attributes.map fun a =>
        { a with expression := g (b.innerName a.name) a.expression } }
  else b

@[simp] theorem type_mapInner (kind : StepKind) (g : String → Expression → Expression) (b : Block) :
    (b.mapInner kind g).type = b.type := by
  unfold mapInner
  split <;> rfl

/-- The block of a step with the expressions of the body and of the blocks of its kind replaced, by
the full names of the attributes. -/
def mapAttributes (b : Block) (kind : StepKind) (g : String → Expression → Expression) : Block :=
  { b with
    attributes := b.attributes.map fun a => { a with expression := g a.name a.expression }
    blocks := b.blocks.map (mapInner kind g) }

/-- What the block of a step does to the settings of its kind, in the order of the document. -/
def moves (b : Block) (kind : StepKind) : List Move :=
  b.attributes.flatMap (·.moves kind) ++ b.blocks.flatMap (innerMoves kind)

end Block

namespace Step
variable {ctx : ResolutionContext} {s s' : Step} {b : Block}

section
variable {σ α : Type} {step : σ → Step} {f : σ → α → σ × Diagnostics} {kind : StepKind}
  {moves : α → List Move} {R : σ → σ → Prop} {g : α → α}

/-- Taking in a part of a block runs its moves. -/
def Runs (ctx : ResolutionContext) (kind : StepKind) (step : σ → Step)
    (f : σ → α → σ × Diagnostics) (moves : α → List Move) : Prop :=
  ∀ state a, (step state).kind = kind → (f state a).2.hasErrors = false →
    Move.runAll ctx (moves a) (step state).intake = some (step (f state a).1).intake

/-- States that mirror each other still do after taking in a part and its image, and the image is
taken in if its moves can be run. -/
def Mirrored (ctx : ResolutionContext) (kind : StepKind) (step : σ → Step)
    (f : σ → α → σ × Diagnostics) (moves : α → List Move) (R : σ → σ → Prop) (g : α → α) : Prop :=
  ∀ state state' a, (step state).kind = kind → R state state' → (f state a).2.hasErrors = false →
    (Move.runAll ctx (moves (g a)) (step state').intake).isSome →
    (f state' (g a)).2.hasErrors = false ∧ R (f state a).1 (f state' (g a)).1

theorem Runs.kind_eq (h : Runs ctx kind step f moves) {state : σ} {a : α}
    (hk : (step state).kind = kind) (accepted : (f state a).2.hasErrors = false) :
    (step (f state a).1).kind = kind :=
  (Move.kind_runAll (h state a hk accepted)).trans hk

theorem Runs.gather (h : Runs ctx kind step f moves) :
    Runs ctx kind step (Diagnostics.gather f) (·.flatMap moves) := by
  intro state as hk accepted
  induction as generalizing state with
  | nil => rfl
  | cons a as ih =>
    simp only [Diagnostics.gather, Diagnostics.hasErrors_append, Bool.or_eq_false_iff] at accepted
    dsimp only
    rw [List.flatMap_cons, Move.runAll_append, h state a hk accepted.1]
    exact ih _ (h.kind_eq hk accepted.1) accepted.2

theorem Mirrored.gather (h : Mirrored ctx kind step f moves R g) (runs : Runs ctx kind step f moves)
    (same : ∀ state state', R state state' → (step state').kind = (step state).kind) :
    Mirrored ctx kind step (Diagnostics.gather f) (·.flatMap moves) R (·.map g) := by
  intro state state' as hk hR accepted hy
  induction as generalizing state state' with
  | nil => exact ⟨rfl, hR⟩
  | cons a as ih =>
    simp only [Diagnostics.gather, Diagnostics.hasErrors_append, Bool.or_eq_false_iff] at accepted
    dsimp only at hy ⊢
    rw [List.map_cons, List.flatMap_cons, Move.runAll_append] at hy
    obtain ⟨first, hR'⟩ := h state state' a hk hR accepted.1 (Option.isSome_of_isSome_bind hy)
    rw [runs state' _ ((same _ _ hR).trans hk) first] at hy
    obtain ⟨rest, hR''⟩ := ih _ _ (runs.kind_eq hk accepted.1) hR' accepted.2 hy
    simp only [List.map_cons, Diagnostics.gather, Diagnostics.hasErrors_append, first, rest]
    exact ⟨rfl, hR''⟩

end

variable {k : StepKind} {g : String → Expression → Expression}

/-- An attribute is stored or kept without an error exactly if its move can be run. -/
theorem run_setOfKind (s : Step) (name : String) (a : Attribute) :
    ((s.setOfKind name a ctx).2.hasErrors = false ∧
        (Move.set name a).run ctx s.intake = some (s.setOfKind name a ctx).1.intake) ∨
      ((s.setOfKind name a ctx).2.hasErrors = true ∧ (Move.set name a).run ctx s.intake = none) := by
  unfold setOfKind Move.run
  dsimp only
  cases ho : (a.resolve ctx).outcome with
  | resolved v =>
    dsimp only [depending, intake]
    cases s.spec.set name v with
    | error m => exact .inr ⟨rfl, rfl⟩
    | ok spec => exact .inl ⟨rfl, rfl⟩
  | deferred => exact .inl ⟨rfl, rfl⟩
  | failed ds => exact .inr ⟨Expression.hasErrors_of_failed ho, rfl⟩

theorem setOfKind_eq_taking (s : Step) (name : String) (a : Attribute) :
    ∃ x d, x.spec.kind = s.kind ∧ (s.setOfKind name a ctx).1 = s.taking x d := by
  unfold setOfKind
  dsimp only
  cases (a.resolve ctx).outcome with
  | resolved v =>
    dsimp only [depending]
    cases hs : s.spec.set name v with
    | error m => exact ⟨s.intake, _, rfl, rfl⟩
    | ok spec =>
      refine ⟨⟨spec, s.deferred⟩, _, ?_, rfl⟩
      rw [(StepSpec.set_eq_ok.1 hs).2]
      rfl
  | deferred => exact ⟨⟨s.spec, s.deferred.insert name a.expression⟩, _, rfl, rfl⟩
  | failed ds => exact ⟨s.intake, _, rfl, rfl⟩

theorem mirrors_setOfKind (h : Mirrors s s') (name : String) (a a' : Attribute)
    (taken : ((Move.set name a').run ctx s'.intake).isSome) :
    (s'.setOfKind name a' ctx).2.hasErrors = false ∧
      Mirrors (s.setOfKind name a ctx).1 (s'.setOfKind name a' ctx).1 := by
  rcases run_setOfKind s' name a' with ⟨accepted, -⟩ | ⟨-, failed⟩
  · obtain ⟨x, d, hx, left⟩ := s.setOfKind_eq_taking name a
    obtain ⟨y, e, hy, right⟩ := s'.setOfKind_eq_taking name a'
    rw [left, right]
    exact ⟨accepted, h.taking hx (hy.trans h.kind_eq) d e⟩
  · rw [failed] at taken
    cases taken

/-- The step with the dependencies of a common attribute, and with the collection that it gives. -/
def prepared (ctx : ResolutionContext) (a : Attribute) (s : Step) : Step :=
  let s := s.depending (a.resolve ctx).dependencies
  if a.name == "for_each" then { s with forEach := some a.expression } else s

theorem aside_prepared (a : Attribute) (ds : Diagnostics) :
    Aside fun s => (prepared ctx a s, ds) := by
  intro s x d _
  refine ⟨d.merge (a.resolve ctx).dependencies, ?_⟩
  unfold prepared
  dsimp only
  split <;> rfl

/-- Whether a common attribute waits for run time. -/
def waits (ctx : ResolutionContext) (a : Attribute) : Bool :=
  (a.resolve ctx).isDeferred && !(a.name == "depends_on" || a.name == "for_each")

theorem aside_setCommon {a : Attribute} (h : waits ctx a = false) :
    Aside (·.setCommon a ctx) := by
  cases ho : (a.resolve ctx).outcome with
  | resolved v =>
    have eq : (·.setCommon a ctx) = fun s => (prepared ctx a s).storeCommon a.name v a.location := by
      funext s
      simp only [setCommon, ho]
      rfl
    exact eq ▸ (aside_storeCommon a.name v a.location).comp (aside_prepared a [])
  | deferred =>
    have exempt : (a.name == "depends_on" || a.name == "for_each") = true := by
      simpa only [waits, Resolution.isDeferred, ho, Bool.true_and, Bool.not_eq_false'] using h
    have eq : (·.setCommon a ctx) = fun s => (prepared ctx a s, []) := by
      funext s
      simp only [setCommon, ho, if_pos exempt]
      rfl
    exact eq ▸ aside_prepared a []
  | failed ds =>
    have eq : (·.setCommon a ctx) = fun s => (prepared ctx a s, ds) := by
      funext s
      simp only [setCommon, ho]
      rfl
    exact eq ▸ aside_prepared a ds

theorem setCommon_of_waits {a : Attribute} (h : waits ctx a = true) (s : Step) :
    s.setCommon a ctx = ((prepared ctx a s).defer a.name a.expression, []) := by
  simp only [waits, Resolution.isDeferred, Bool.and_eq_true, Bool.not_eq_true'] at h
  obtain ⟨deferred, other⟩ := h
  split at deferred
  · rename_i ho
    simp only [setCommon, ho, other]
    rfl
  · cases deferred

/-- A common attribute only has to wait, if anything. -/
theorem run_setCommon (s : Step) (a : Attribute) :
    Move.runAll ctx (if a.name == "depends_on" || a.name == "for_each" then [] else [.wait a])
      s.intake = some (s.setCommon a ctx).1.intake := by
  cases hw : waits ctx a with
  | true =>
    have kept : (prepared ctx a s).intake = s.intake := (aside_prepared a []).intake_eq s
    have deferred : ((prepared ctx a s).defer a.name a.expression).intake =
        ⟨s.intake.spec, s.intake.deferred.insert a.name a.expression⟩ := by
      rw [← kept]
      rfl
    rw [setCommon_of_waits hw]
    simp only [waits, Bool.and_eq_true, Bool.not_eq_true'] at hw
    rw [hw.2, if_neg Bool.false_ne_true, Move.runAll_singleton, deferred]
    exact congrArg some (if_pos hw.1)
  | false =>
    rw [(aside_setCommon hw).intake_eq s]
    split
    · rfl
    · rename_i other
      simp only [waits, other, Bool.not_false, Bool.and_true] at hw
      rw [Move.runAll_singleton]
      exact congrArg some (if_neg (Bool.eq_false_iff.1 hw))

theorem mirrors_setCommon (h : Mirrors s s') (a : Attribute) :
    (s'.setCommon a ctx).2 = (s.setCommon a ctx).2 ∧
      Mirrors (s.setCommon a ctx).1 (s'.setCommon a ctx).1 := by
  cases hw : waits ctx a with
  | true =>
    have prepared : Mirrors (prepared ctx a s) (prepared ctx a s') := ((aside_prepared a []).mirrors h).2
    rw [setCommon_of_waits hw, setCommon_of_waits hw]
    exact ⟨rfl, prepared.defer a.name a.expression⟩
  | false => exact (aside_setCommon hw).mirrors h

theorem runs_setAttribute : Runs ctx k id (setAttribute ctx) (Attribute.moves k) := by
  intro s a hk accepted
  unfold setAttribute at accepted ⊢
  unfold Attribute.moves
  split
  · exact run_setCommon s a
  · rename_i common
    rw [if_neg common] at accepted
    rw [← show s.kind = k from hk]
    split at accepted
    · rename_i kind
      rw [if_pos kind, if_pos kind, Move.runAll_singleton]
      rcases run_setOfKind s a.name a with ⟨-, taken⟩ | ⟨failed, -⟩
      · exact taken
      · rw [failed] at accepted
        cases accepted
    · cases accepted

theorem mirrored_setAttribute (fixed : ∀ name ∈ commonNames, ∀ e, g name e = e) :
    Mirrored ctx k id (setAttribute ctx) (Attribute.moves k) Mirrors
      fun a => { a with expression := g a.name a.expression } := by
  intro s s' a hk hs accepted taken
  have same : s'.kind = s.kind := hs.kind_eq
  unfold setAttribute at accepted ⊢
  dsimp only at accepted ⊢
  unfold Attribute.moves at taken
  dsimp only at taken
  split
  · rename_i common
    rw [if_pos common] at accepted
    have kept : ({ a with expression := g a.name a.expression } : Attribute) = a := by
      rw [fixed _ (List.contains_iff_mem.1 common)]
    rw [kept]
    obtain ⟨reports, mirrors⟩ : (s'.setCommon a ctx).2 = (s.setCommon a ctx).2 ∧
        Mirrors (s.setCommon a ctx).1 (s'.setCommon a ctx).1 := mirrors_setCommon hs a
    exact ⟨reports ▸ accepted, mirrors⟩
  · rename_i common
    rw [if_neg common] at accepted taken
    split at accepted
    · rename_i kind
      rw [if_pos (hk ▸ kind), Move.runAll_singleton] at taken
      rw [same, if_pos kind, if_pos kind]
      exact mirrors_setOfKind hs _ a _ taken
    · cases accepted

theorem setInner_eq (s : Step) (a : Attribute) : setInner ctx b s a =
    if s.kind.accepts (b.innerName a.name) then s.setOfKind (b.innerName a.name) a ctx
    else (s, [Block.unsupportedAttribute a b.type]) := rfl

theorem runs_setInner : Runs ctx k id (setInner ctx b) (b.attributeMoves k) := by
  intro s a hk accepted
  rw [setInner_eq] at accepted ⊢
  unfold Block.attributeMoves
  split at accepted
  · rename_i kind
    rw [if_pos kind, if_pos (hk ▸ kind), Move.runAll_singleton]
    rcases run_setOfKind s (b.innerName a.name) a with ⟨-, taken⟩ | ⟨failed, -⟩
    · exact taken
    · rw [failed] at accepted
      cases accepted
  · cases accepted

theorem mirrored_setInner : Mirrored ctx k id (setInner ctx b) (b.attributeMoves k) Mirrors
    fun a => { a with expression := g (b.innerName a.name) a.expression } := by
  intro s s' a hk hs accepted taken
  rw [setInner_eq] at accepted ⊢
  unfold Block.attributeMoves at taken
  dsimp only at taken
  split at accepted
  · rename_i kind
    rw [if_pos (hk ▸ kind), Move.runAll_singleton] at taken
    rw [setInner_eq, hs.kind_eq, if_pos kind, if_pos kind]
    exact mirrors_setOfKind hs _ a _ taken
  · cases accepted

/-- The step with an inner block declared in its settings. -/
def opened (s : Step) (b : Block) : Step := { s with spec := s.spec.openBlock b.type b.labels }

theorem Mirrors.opened (h : Mirrors s s') (b : Block) : Mirrors (s.opened b) (s'.opened b) :=
  h.taking (x := ⟨s.spec.openBlock b.type b.labels, s.deferred⟩)
    (y := ⟨s'.spec.openBlock b.type b.labels, s'.deferred⟩) rfl h.kind_eq
    s.dependencies s'.dependencies

theorem setKindBlock_eq (s : Step) (b : Block) : s.setKindBlock b ctx =
    ((Diagnostics.gather (setInner ctx b) (s.opened b) b.attributes).1,
      (Diagnostics.gather (setInner ctx b) (s.opened b) b.attributes).2 ++
        b.blocks.map (·.unsupportedBlock b.type)) := rfl

theorem run_setKindBlock (hk : s.kind = k) (accepted : (s.setKindBlock b ctx).2.hasErrors = false) :
    Move.runAll ctx (.open b.type b.labels :: b.attributes.flatMap (b.attributeMoves k)) s.intake =
      some (s.setKindBlock b ctx).1.intake := by
  rw [setKindBlock_eq] at accepted ⊢
  simp only [Diagnostics.hasErrors_append, Bool.or_eq_false_iff] at accepted
  rw [Move.runAll_cons]
  exact runs_setInner.gather (s.opened b) b.attributes hk accepted.1

theorem mirrors_setKindBlock (hk : s.kind = k) (hs : Mirrors s s')
    (accepted : (s.setKindBlock b ctx).2.hasErrors = false)
    (owned : k.acceptsBlock b.type)
    (taken : (Move.runAll ctx ((b.mapInner k g).innerMoves k) s'.intake).isSome) :
    (s'.setKindBlock (b.mapInner k g) ctx).2.hasErrors = false ∧
      Mirrors (s.setKindBlock b ctx).1 (s'.setKindBlock (b.mapInner k g) ctx).1 := by
  unfold Block.mapInner at taken ⊢
  rw [if_pos owned] at taken ⊢
  unfold Block.innerMoves at taken
  dsimp only at taken
  rw [if_pos owned, Move.runAll_cons] at taken
  rw [setKindBlock_eq] at accepted ⊢
  rw [setKindBlock_eq]
  simp only [Diagnostics.hasErrors_append, Bool.or_eq_false_iff] at accepted ⊢
  have images : Mirrored ctx k id (Diagnostics.gather (setInner ctx b)) _ Mirrors _ :=
    (mirrored_setInner (g := g)).gather runs_setInner fun _ _ h => h.kind_eq
  obtain ⟨inner, mirrors⟩ := images (s.opened b) (s'.opened b) b.attributes hk (hs.opened b)
    accepted.1 taken
  exact ⟨⟨inner, accepted.2⟩, mirrors⟩

/-- The inner blocks that steps of every kind take. -/
def commonBlocks : List String := ["loop", "retry", "error", "throw", "output"]

theorem acceptsBlock_common (k : StepKind) : ∀ type ∈ commonBlocks, k.acceptsBlock type = false := by
  cases k <;> decide

/-- An inner block is taken by every step and leaves the settings alone, or it is one of the kind. -/
theorem setBlock_cases (ctx : ResolutionContext) (b : Block) :
    (b.type ∈ commonBlocks ∧ Aside (·.setBlock b ctx)) ∨
      ∀ s : Step, s.setBlock b ctx = if s.kind.acceptsBlock b.type then s.setKindBlock b ctx
        else (s, [b.unsupportedBlock "step"]) := by
  unfold setBlock
  split
  · rename_i ht
    exact .inl ⟨by simp [ht, commonBlocks], aside_setLoop⟩
  · rename_i ht
    exact .inl ⟨by simp [ht, commonBlocks], aside_setPolicy _ fun _ _ _ _ => rfl⟩
  · rename_i ht
    exact .inl ⟨by simp [ht, commonBlocks], aside_setPolicy _ fun _ _ _ _ => rfl⟩
  · rename_i ht
    exact .inl ⟨by simp [ht, commonBlocks], aside_addThrow⟩
  · rename_i ht
    exact .inl ⟨by simp [ht, commonBlocks], aside_addOutput⟩
  · exact .inr fun _ => rfl

theorem runs_setBlock : Runs ctx k id (·.setBlock · ctx) (Block.innerMoves k) := by
  intro s b hk accepted
  dsimp only at accepted ⊢
  unfold Block.innerMoves
  rcases setBlock_cases ctx b with ⟨common, aside⟩ | own
  · rw [acceptsBlock_common k _ common, if_neg Bool.false_ne_true]
    exact congrArg some (aside.intake_eq s).symm
  · rw [own] at accepted ⊢
    split at accepted
    · rename_i kind
      rw [if_pos kind, if_pos (hk ▸ kind)]
      exact run_setKindBlock hk accepted
    · cases accepted

theorem mirrored_setBlock : Mirrored ctx k id (·.setBlock · ctx) (Block.innerMoves k) Mirrors
    (Block.mapInner k g) := by
  intro s s' b hk hs accepted taken
  dsimp only at accepted ⊢
  rcases setBlock_cases ctx b with ⟨common, aside⟩ | own
  · have kept : b.mapInner k g = b := if_neg (by simp [acceptsBlock_common k _ common])
    rw [kept]
    obtain ⟨reports, mirrors⟩ := aside.mirrors hs
    exact ⟨reports ▸ accepted, mirrors⟩
  · rw [own] at accepted ⊢
    split at accepted
    · rename_i kind
      have owned : k.acceptsBlock b.type = true := hk ▸ kind
      rcases setBlock_cases ctx (b.mapInner k g) with ⟨common, -⟩ | own'
      · rw [Block.type_mapInner] at common
        rw [acceptsBlock_common k _ common] at owned
        cases owned
      · rw [own', Block.type_mapInner, hs.kind_eq, if_pos kind, if_pos kind]
        exact mirrors_setKindBlock hk hs accepted owned taken
    · cases accepted

theorem runs_setBlockOnce : Runs ctx k Prod.fst (setBlockOnce ctx) (Block.innerMoves k) := by
  intro state b hk accepted
  unfold setBlockOnce at accepted ⊢
  dsimp only at accepted ⊢
  split
  · rename_i seen
    rw [if_pos seen] at accepted
    cases accepted
  · rename_i seen
    rw [if_neg seen] at accepted
    exact runs_setBlock state.1 b hk accepted

theorem mirrored_setBlockOnce : Mirrored ctx k Prod.fst (setBlockOnce ctx) (Block.innerMoves k)
    (fun state state' => Mirrors state.1 state'.1 ∧ state'.2 = state.2) (Block.mapInner k g) := by
  rintro ⟨s, seen⟩ ⟨s', _⟩ b hk ⟨hs, rfl⟩ accepted taken
  unfold setBlockOnce at accepted ⊢
  dsimp only at hs accepted ⊢
  rw [Block.type_mapInner]
  split at accepted
  · cases accepted
  · rename_i once
    rw [if_neg once, if_neg once]
    obtain ⟨image, mirrors⟩ := mirrored_setBlock s s' b hk hs accepted taken
    exact ⟨image, mirrors, rfl⟩

end Step

theorem Attribute.moves_map (k : StepKind) (g : String → Expression → Expression) (a : Attribute) :
    ({ a with expression := g a.name a.expression } : Attribute).moves k =
      (a.moves k).map (Move.map g) := by
  unfold moves
  dsimp only
  split
  · split <;> rfl
  · split <;> rfl

namespace Block

theorem attributeMoves_map (b : Block) (k : StepKind) (g : String → Expression → Expression)
    (a : Attribute) :
    b.attributeMoves k { a with expression := g (b.innerName a.name) a.expression } =
      (b.attributeMoves k a).map (Move.map g) := by
  unfold attributeMoves
  dsimp only
  split <;> rfl

theorem innerMoves_mapInner (k : StepKind) (g : String → Expression → Expression) (b : Block) :
    (b.mapInner k g).innerMoves k = (b.innerMoves k).map (Move.map g) := by
  unfold innerMoves
  rw [type_mapInner]
  split
  · rename_i owned
    unfold mapInner
    rw [if_pos owned, List.map_cons, List.map_flatMap, List.flatMap_map]
    simp only [← attributeMoves_map]
    rfl
  · rfl

theorem innerName_not_common (b : Block) (name : String) :
    b.innerName name ∉ Step.commonNames := by
  have dotted : '.' ∈ (b.innerName name).toList := by
    rw [innerName, String.toList_append, String.toList_append]
    exact List.mem_append_left _ (List.mem_append_right _ (by decide))
  have plain : ∀ common ∈ Step.commonNames, '.' ∉ common.toList := by decide
  exact fun common => plain _ common dotted

/-- Common attributes wait at most; whatever is set is an attribute of the kind. -/
theorem moves_cases {b : Block} {k : StepKind} {m : Move} (h : m ∈ b.moves k) :
    (∃ a, m = .wait a ∧ a.name ∈ Step.waitingNames) ∨ (∃ type labels, m = .open type labels) ∨
      ∃ name a, m = .set name a ∧ name ∉ Step.commonNames ∧ k.accepts name ∧
        a ∈ b.attributes ++ b.blocks.flatMap (·.attributes) := by
  rcases List.mem_append.1 h with h | h <;> obtain ⟨c, hc, hm⟩ := List.mem_flatMap.1 h
  · unfold Attribute.moves at hm
    split at hm
    · rename_i common
      split at hm
      · cases hm
      · rename_i other
        refine .inl ⟨c, List.mem_singleton.1 hm, ?_⟩
        simp only [Step.commonNames, List.contains_eq_mem, List.mem_cons, List.not_mem_nil,
          decide_eq_true_eq, Bool.or_eq_true, beq_iff_eq] at common other
        simp only [Step.waitingNames, List.mem_cons, List.not_mem_nil]
        grind
    · rename_i other
      split at hm
      · rename_i kind
        exact .inr (.inr ⟨c.name, c, List.mem_singleton.1 hm,
          fun common => other (List.contains_iff_mem.2 common), kind, List.mem_append_left _ hc⟩)
      · cases hm
  · unfold innerMoves at hm
    split at hm
    · rcases List.mem_cons.1 hm with rfl | hm
      · exact .inr (.inl ⟨c.type, c.labels, rfl⟩)
      · obtain ⟨a, ha, hm⟩ := List.mem_flatMap.1 hm
        unfold attributeMoves at hm
        split at hm
        · rename_i kind
          exact .inr (.inr ⟨c.innerName a.name, a, List.mem_singleton.1 hm,
            c.innerName_not_common a.name, kind,
            List.mem_append_right _ (List.mem_flatMap.2 ⟨c, hc, ha⟩)⟩)
        · cases hm
    · cases hm

theorem waiting_of_wait {b : Block} {k : StepKind} {a : Attribute} (h : .wait a ∈ b.moves k) :
    a.name ∈ Step.waitingNames := by
  rcases moves_cases h with ⟨c, hc, waiting⟩ | ⟨type, labels, hm⟩ | ⟨name, c, hm, -⟩
  · cases hc
    exact waiting
  · cases hm
  · cases hm

theorem accepts_of_set {b : Block} {k : StepKind} {name : String} {a : Attribute}
    (h : .set name a ∈ b.moves k) : name ∉ Step.commonNames ∧ k.accepts name := by
  rcases moves_cases h with ⟨c, hm, -⟩ | ⟨type, labels, hm⟩ | ⟨other, c, hm, own, kind, -⟩
  · cases hm
  · cases hm
  · cases hm
    exact ⟨own, kind⟩

theorem attribute_of_set {b : Block} {k : StepKind} {name : String} {a : Attribute}
    (h : .set name a ∈ b.moves k) : a ∈ b.attributes ++ b.blocks.flatMap (·.attributes) := by
  rcases moves_cases h with ⟨c, hm, -⟩ | ⟨type, labels, hm⟩ | ⟨other, c, hm, -, -, mem⟩
  · cases hm
  · cases hm
  · cases hm
    exact mem

theorem moves_mapAttributes (b : Block) (k : StepKind) (g : String → Expression → Expression) :
    (b.mapAttributes k g).moves k = (b.moves k).map (Move.map g) := by
  unfold moves mapAttributes
  rw [List.map_append, List.flatMap_map, List.flatMap_map, List.map_flatMap, List.map_flatMap]
  simp only [Attribute.moves_map, innerMoves_mapInner]

end Block

namespace Step
variable {ctx : ResolutionContext} {s s' : Step} {b : Block} {pipeline : String}
  {g : String → Expression → Expression}

theorem takeIn_eq (s : Step) (b : Block) : s.takeIn b ctx =
    ((Diagnostics.gather (setBlockOnce ctx) ((s.setAttributes b ctx).1, []) b.blocks).1.1,
      (s.setAttributes b ctx).2 ++
        (Diagnostics.gather (setBlockOnce ctx) ((s.setAttributes b ctx).1, []) b.blocks).2) := rfl

theorem run_setAttributes (accepted : (s.setAttributes b ctx).2.hasErrors = false) :
    Move.runAll ctx (b.attributes.flatMap (·.moves s.kind)) s.intake =
      some (s.setAttributes b ctx).1.intake :=
  runs_setAttribute.gather s b.attributes rfl accepted

theorem kind_setAttributes (accepted : (s.setAttributes b ctx).2.hasErrors = false) :
    (s.setAttributes b ctx).1.kind = s.kind :=
  Move.kind_runAll (run_setAttributes accepted)

theorem run_takeIn (accepted : (s.takeIn b ctx).2.hasErrors = false) :
    Move.runAll ctx (b.moves s.kind) s.intake = some (s.takeIn b ctx).1.intake := by
  rw [takeIn_eq] at accepted ⊢
  simp only [Diagnostics.hasErrors_append, Bool.or_eq_false_iff] at accepted
  unfold Block.moves
  rw [Move.runAll_append, run_setAttributes accepted.1]
  exact runs_setBlockOnce.gather ((s.setAttributes b ctx).1, []) b.blocks
    (kind_setAttributes accepted.1) accepted.2

theorem mirrors_takeIn (fixed : ∀ name ∈ commonNames, ∀ e, g name e = e) (hs : Mirrors s s')
    (accepted : (s.takeIn b ctx).2.hasErrors = false)
    (taken : (Move.runAll ctx ((b.mapAttributes s.kind g).moves s.kind) s'.intake).isSome) :
    (s'.takeIn (b.mapAttributes s.kind g) ctx).2.hasErrors = false ∧
      Mirrors (s.takeIn b ctx).1 (s'.takeIn (b.mapAttributes s.kind g) ctx).1 := by
  rw [takeIn_eq] at accepted ⊢
  rw [takeIn_eq]
  simp only [Diagnostics.hasErrors_append, Bool.or_eq_false_iff] at accepted ⊢
  have attributes : Mirrored ctx s.kind id (Diagnostics.gather (setAttribute ctx)) _ Mirrors _ :=
    (mirrored_setAttribute fixed).gather runs_setAttribute fun _ _ h => h.kind_eq
  have blocks : Mirrored ctx s.kind Prod.fst (Diagnostics.gather (setBlockOnce ctx)) _ _ _ :=
    (mirrored_setBlockOnce (g := g)).gather runs_setBlockOnce fun _ _ h => h.1.kind_eq
  unfold Block.moves at taken
  rw [Move.runAll_append] at taken
  obtain ⟨first, mirrors⟩ := attributes s s' b.attributes rfl hs accepted.1
    (Option.isSome_of_isSome_bind taken)
  have ran : Move.runAll ctx ((b.mapAttributes s.kind g).attributes.flatMap (·.moves s.kind))
      s'.intake = some (s'.setAttributes (b.mapAttributes s.kind g) ctx).1.intake :=
    hs.kind_eq ▸ run_setAttributes first
  rw [ran] at taken
  obtain ⟨rest, mirrors', -⟩ := blocks ((s.setAttributes b ctx).1, [])
    ((s'.setAttributes (b.mapAttributes s.kind g) ctx).1, []) b.blocks
    (kind_setAttributes accepted.1) ⟨mirrors, rfl⟩ accepted.2 taken
  exact ⟨⟨first, rest⟩, mirrors'⟩

/-- A block whose moves can be run after its expressions are replaced is taken in to a step that
differs in settings only. -/
theorem takeIn_mapAttributes (fixed : ∀ name ∈ commonNames, ∀ e, g name e = e)
    (accepted : (s.takeIn b ctx).2.hasErrors = false) {x : Intake}
    (taken : Move.runAll ctx ((b.mapAttributes s.kind g).moves s.kind) s.intake = some x) :
    (s.takeIn (b.mapAttributes s.kind g) ctx).2.hasErrors = false ∧
      ∃ d, (s.takeIn (b.mapAttributes s.kind g) ctx).1 = (s.takeIn b ctx).1.taking x d := by
  have self : Mirrors s s := ⟨s.intake, s.dependencies, rfl, rfl⟩
  obtain ⟨image, y, d, -, hy⟩ := mirrors_takeIn fixed self accepted (Option.isSome_of_eq_some taken)
  have ran := (run_takeIn image).symm.trans taken
  rw [hy] at ran
  obtain rfl : y = x := Option.some.inj ran
  exact ⟨image, d, hy⟩

/-- An accepted block runs its moves from the empty settings. -/
theorem run_moves (accepted : ofBlock b pipeline ctx = .ok s) :
    Move.runAll ctx (b.moves s.kind) ⟨.ofKind s.kind, []⟩ = some s.intake := by
  obtain ⟨word, name, kind, -, -, taken, -, rfl⟩ := exists_of_ofBlock accepted
  have run : Move.runAll ctx (b.moves kind) ⟨.ofKind kind, []⟩ =
    some ((start b kind name pipeline).takeIn b ctx).1.released.intake := run_takeIn taken
  rwa [show Step.kind _ = kind from Move.kind_runAll run]

/-- A block whose expressions are replaced is decoded to a step that differs in settings only, if
its moves can be run; it is accepted if that step passes the check. -/
theorem ofBlock_mapAttributes (fixed : ∀ name ∈ commonNames, ∀ e, g name e = e)
    (accepted : ofBlock b pipeline ctx = .ok s) {x : Intake}
    (taken : Move.runAll ctx ((b.moves s.kind).map (Move.map g)) ⟨.ofKind s.kind, []⟩ = some x) :
    ∃ d ds, Diagnostics.hasErrors ds = false ∧ ofBlock (b.mapAttributes s.kind g) pipeline ctx =
      Diagnostics.orValue (ds ++ (s.taking x d).check) (s.taking x d) := by
  obtain ⟨word, name, kind, labels, known, first, -, rfl⟩ := exists_of_ofBlock accepted
  have hk : (((start b kind name pipeline).takeIn b ctx).1.released).kind = kind :=
    Move.kind_runAll (run_takeIn first)
  rw [hk] at taken ⊢
  rw [← Block.moves_mapAttributes] at taken
  obtain ⟨second, d, hy⟩ : ((start b kind name pipeline).takeIn (b.mapAttributes kind g) ctx).2.hasErrors =
      false ∧ ∃ d, ((start b kind name pipeline).takeIn (b.mapAttributes kind g) ctx).1 =
        ((start b kind name pipeline).takeIn b ctx).1.taking x d := takeIn_mapAttributes fixed first taken
  refine ⟨(((start b kind name pipeline).takeIn b ctx).1.taking x d).released.dependencies, _,
    second, (ofBlock_eq (b := b.mapAttributes kind g) labels known).trans ?_⟩
  rw [show start (b.mapAttributes kind g) kind name pipeline = start b kind name pipeline from rfl, hy]
  rfl

theorem kind_of_ofBlock (accepted : ofBlock b pipeline ctx = .ok s) :
    ∃ word name, b.labels = [word, name] ∧ Keyword.parse StepKind word = .ok s.kind := by
  obtain ⟨word, name, kind, labels, known, taken, -, rfl⟩ := exists_of_ofBlock accepted
  have same : Step.kind _ = kind := Move.kind_runAll (run_takeIn taken)
  exact ⟨word, name, labels, known.trans (congrArg _ same.symm)⟩

theorem kind_ofBlock_mapAttributes {k : StepKind} (accepted : ofBlock b pipeline ctx = .ok s)
    (accepted' : ofBlock (b.mapAttributes k g) pipeline ctx = .ok s') : s'.kind = s.kind := by
  obtain ⟨word, name, labels, known⟩ := kind_of_ofBlock accepted
  obtain ⟨word', name', labels', known'⟩ := kind_of_ofBlock accepted'
  have words : b.labels = [word', name'] := labels'
  rw [labels] at words
  cases words
  exact Except.ok.inj (known'.symm.trans known)

end Step
end PipelineResolution
