import PipelineResolution.Proofs.Dict
import PipelineResolution.Proofs.Step.Moves

/-!
# Moves as writes

A move that is run stores a value in one place, keeps an expression under one name or declares an
inner block. Of two writes to one place the later counts, and writes to different places can be
swapped once the choices that they belong to are declared. So the writes of a body can be repeated
after those of its inner blocks without a trace, unless an inner block writes something else over
them.
-/
namespace PipelineResolution

inductive Write where
  | declare (type : String) (labels : List String)
  | store (name : String) (v : Value)
  | keep (name : String) (e : Expression)

namespace Write
variable {kind : StepKind} {x y : Intake} {f g w : Write} {ws body inner : List Write}

def apply (x : Intake) : Write → Intake
  | declare type labels => { x with spec := x.spec.openBlock type labels }
  | store name v => { x with spec := x.spec.store name v }
  | keep name e => { x with deferred := x.deferred.insert name e }

def run (ws : List Write) (x : Intake) : Intake := ws.foldl apply x

@[simp] theorem run_nil (x : Intake) : run [] x = x := rfl

@[simp] theorem run_cons (w : Write) (ws : List Write) (x : Intake) :
    run (w :: ws) x = run ws (w.apply x) := rfl

theorem run_append (x : Intake) : run (body ++ inner) x = run inner (run body x) :=
  List.foldl_append

/-- A value that is stored is of the type of its attribute. -/
def Fits (kind : StepKind) : Write → Prop
  | store name v => kind.Fits name v
  | declare .. | keep .. => True

/-- Two writes that leave the same wherever they meet. -/
def Agrees (kind : StepKind) : Write → Write → Prop
  | store m v, store n w => kind.place m = kind.place n → v = w
  | keep m e, keep n e' => m = n → e = e'
  | _, _ => True

/-- A write that sets something and does not only declare what can be set. -/
def Sets : Write → Prop
  | declare .. => False
  | store .. | keep .. => True

/-- Whether a write sets something, in a choice that is declared if it belongs to one. -/
def Settled (x : Intake) : Write → Prop
  | declare .. => False
  | store name _ => x.spec.Opens (x.spec.kind.place name)
  | keep .. => True

/-- Where a write can be told from others by its place. -/
structure Ready (kind : StepKind) (x : Intake) (w : Write) : Prop where
  kind_eq : x.spec.kind = kind
  sorted : x.deferred.Sorted
  settled : w.Settled x

@[simp] theorem kind_apply (w : Write) (x : Intake) : (w.apply x).spec.kind = x.spec.kind := by
  cases w <;> rfl

theorem sorted_apply (w : Write) (sorted : x.deferred.Sorted) : (w.apply x).deferred.Sorted := by
  cases w with
  | keep name e => exact sorted.insert name e
  | declare | store => exact sorted

theorem Ready.apply (ready : f.Ready kind x) (g : Write) : f.Ready kind (g.apply x) := by
  obtain ⟨rfl, sorted, settled⟩ := ready
  refine ⟨kind_apply g x, sorted_apply g sorted, ?_⟩
  cases f with
  | declare => exact settled
  | keep => trivial
  | store name v =>
    cases g with
    | declare type labels => exact StepSpec.Opens.openBlock settled type labels
    | store n w => exact StepSpec.Opens.store settled n w
    | keep => exact settled

theorem Ready.run (ready : f.Ready kind x) (ws : List Write) : f.Ready kind (run ws x) := by
  induction ws generalizing x with
  | nil => exact ready
  | cons w ws ih => exact ih (ready.apply w)

/-- A value that has been stored is in a choice that is declared. -/
theorem ready_apply (hk : x.spec.kind = kind) (sorted : x.deferred.Sorted) (fits : w.Fits kind)
    (sets : w.Sets) : w.Ready kind (w.apply x) := by
  subst hk
  refine ⟨kind_apply w x, sorted_apply w sorted, ?_⟩
  cases w with
  | declare => cases sets
  | keep => trivial
  | store name v => exact StepSpec.opens_store fits

/-- Writes that agree can be swapped. -/
theorem apply_comm (ready : f.Ready kind x) (hf : f.Fits kind) (hg : g.Fits kind)
    (agrees : f.Agrees kind g) : g.apply (f.apply x) = f.apply (g.apply x) := by
  obtain ⟨rfl, sorted, settled⟩ := ready
  cases f with
  | declare => cases settled
  | store m v =>
    cases g with
    | declare type labels =>
      exact congrArg (Intake.mk · x.deferred) (StepSpec.openBlock_store settled type labels)
    | keep => rfl
    | store n w =>
      refine congrArg (Intake.mk · x.deferred) ?_
      by_cases same : x.spec.kind.place m = x.spec.kind.place n
      · obtain rfl := agrees same
        calc (x.spec.store m v).store n v
          _ = x.spec.store n v := StepSpec.store_store same hg
          _ = x.spec.store m v := StepSpec.store_congr same.symm
          _ = (x.spec.store n v).store m v := (StepSpec.store_store same.symm hf).symm
      · exact (StepSpec.store_comm same settled).symm
  | keep m e =>
    cases g with
    | declare | store => rfl
    | keep n e' =>
      refine congrArg (Intake.mk x.spec) ?_
      by_cases same : m = n
      · subst same
        rw [agrees rfl]
      · exact sorted.insert_comm same e e'

/-- Of two writes that do not agree the later counts. -/
theorem apply_of_not_agrees (ready : f.Ready kind x) (hg : g.Fits kind)
    (differ : ¬f.Agrees kind g) : g.apply (f.apply x) = g.apply x := by
  obtain ⟨rfl, sorted, -⟩ := ready
  cases f with
  | declare => exact absurd trivial differ
  | store m v =>
    cases g with
    | declare | keep => exact absurd trivial differ
    | store n w =>
      simp only [Agrees, Classical.not_imp] at differ
      exact congrArg (Intake.mk · x.deferred) (StepSpec.store_store differ.1 hg)
  | keep m e =>
    cases g with
    | declare | store => exact absurd trivial differ
    | keep n e' =>
      simp only [Agrees, Classical.not_imp] at differ
      obtain ⟨rfl, -⟩ := differ
      exact congrArg (Intake.mk x.spec) (sorted.insert_insert m e e')

/-- What is set twice is set. -/
theorem apply_apply (hk : x.spec.kind = kind) (sorted : x.deferred.Sorted) (fits : w.Fits kind)
    (sets : w.Sets) : w.apply (w.apply x) = w.apply x := by
  subst hk
  cases w with
  | declare => cases sets
  | store n v => exact congrArg (Intake.mk · x.deferred) (StepSpec.store_store rfl fits)
  | keep n e => exact congrArg (Intake.mk x.spec) (sorted.insert_insert n e e)

theorem run_apply_comm (hf : f.Fits kind) (hws : ∀ w ∈ ws, w.Fits kind)
    (agree : ∀ w ∈ ws, f.Agrees kind w) (ready : f.Ready kind x) :
    run ws (f.apply x) = f.apply (run ws x) := by
  induction ws generalizing x with
  | nil => rfl
  | cons w ws ih =>
    obtain ⟨hw, hws⟩ := List.forall_mem_cons.1 hws
    obtain ⟨one, agree⟩ := List.forall_mem_cons.1 agree
    rw [run_cons, apply_comm ready hf hw one]
    exact ih hws agree (ready.apply w)

/-- A write leaves nothing behind when a later one differs from it; otherwise it might as well have
been the last. -/
theorem run_apply_cases (hf : f.Fits kind) (hws : ∀ w ∈ ws, w.Fits kind) :
    (∀ x, f.Ready kind x → run ws (f.apply x) = run ws x) ∨
      ∀ x, f.Ready kind x → run ws (f.apply x) = f.apply (run ws x) := by
  induction ws with
  | nil => exact .inr fun _ _ => rfl
  | cons w ws ih =>
    obtain ⟨hw, hws⟩ := List.forall_mem_cons.1 hws
    by_cases agrees : f.Agrees kind w
    · refine (ih hws).imp (fun lost x ready => ?_) fun last x ready => ?_
      · rw [run_cons, apply_comm ready hf hw agrees, lost _ (ready.apply w), run_cons]
      · rw [run_cons, apply_comm ready hf hw agrees, last _ (ready.apply w), run_cons]
    · refine .inl fun x ready => ?_
      rw [run_cons, apply_of_not_agrees ready hw agrees, run_cons]

/-- The writes of a body can be repeated after others that agree with them. -/
theorem run_again (hk : x.spec.kind = kind) (sorted : x.deferred.Sorted)
    (sets : ∀ f ∈ body, f.Sets) (hbody : ∀ f ∈ body, f.Fits kind)
    (hinner : ∀ g ∈ inner, g.Fits kind) (agree : ∀ f ∈ body, ∀ g ∈ inner, f.Agrees kind g) :
    run body (run (body ++ inner) x) = run (body ++ inner) x := by
  induction body generalizing x with
  | nil => rfl
  | cons f body ih =>
    obtain ⟨sets_f, sets⟩ := List.forall_mem_cons.1 sets
    obtain ⟨hf, hbody⟩ := List.forall_mem_cons.1 hbody
    obtain ⟨agree_f, agree⟩ := List.forall_mem_cons.1 agree
    have ready : f.Ready kind (f.apply x) := ready_apply hk sorted hf sets_f
    have after : f.Ready kind (run (body ++ inner) (f.apply x)) := ready.run _
    have rest : run body (run (body ++ inner) (f.apply x)) = run (body ++ inner) (f.apply x) :=
      ih ((kind_apply f x).trans hk) (sorted_apply f sorted) sets hbody agree
    rw [List.cons_append, run_cons, run_cons]
    rcases run_apply_cases hf hbody with lost | last
    · rw [lost _ after, rest]
    · -- The write is the last of the body, and the inner blocks leave it alone.
      have kept : f.apply (run (body ++ inner) (f.apply x)) = run (body ++ inner) (f.apply x) := by
        rw [run_append, ← run_apply_comm hf hinner agree_f (ready.run body), ← last _ ready,
          apply_apply hk sorted hf sets_f]
      rw [last _ after, rest, kept]

end Write

namespace Move
variable {ctx : ResolutionContext} {x y : Intake} {m : Move} {ms : List Move}

/-- What a move writes, if anything. -/
def write? (ctx : ResolutionContext) : Move → Option Write
  | wait a =>
    if (a.resolve ctx).isDeferred then some (.keep a.name a.expression) else none
  | .open type labels => some (.declare type labels)
  | set name a =>
    match (a.resolve ctx).outcome with
    | .resolved v => some (.store name v)
    | .deferred => some (.keep name a.expression)
    | .failed _ => none

/-- What a list of moves writes. -/
def writes (ctx : ResolutionContext) (ms : List Move) : List Write := ms.filterMap (write? ctx)

theorem run_eq_write (h : m.run ctx x = some y) :
    (∀ w ∈ writes ctx [m], w.Fits x.spec.kind) ∧ y = Write.run (writes ctx [m]) x := by
  cases m with
  | wait a =>
    cases h
    by_cases waits : (a.resolve ctx).isDeferred = true <;>
      simp [writes, write?, waits, Write.Fits, Write.apply]
  | «open» type labels =>
    cases h
    simp [writes, write?, Write.Fits, Write.apply]
  | set name a =>
    rcases run_set_cases h with ⟨v, ho, fits, rfl⟩ | ⟨ho, rfl⟩
    · simp [writes, write?, ho, Write.Fits, Write.apply, fits]
    · simp [writes, write?, ho, Write.Fits, Write.apply]

/-- Moves that can be run are run by their writes. -/
theorem runAll_eq_run (h : runAll ctx ms x = some y) :
    (∀ w ∈ writes ctx ms, w.Fits x.spec.kind) ∧ y = Write.run (writes ctx ms) x := by
  induction ms generalizing x with
  | nil =>
    cases h
    exact ⟨fun _ hw => (nomatch hw), rfl⟩
  | cons m ms ih =>
    obtain ⟨z, first, rest⟩ := Option.bind_eq_some_iff.1 (runAll_cons.symm.trans h)
    obtain ⟨fits, rfl⟩ := run_eq_write first
    obtain ⟨fits', rfl⟩ := ih rest
    rw [kind_run first] at fits'
    have split : writes ctx (m :: ms) = writes ctx [m] ++ writes ctx ms :=
      List.filterMap_append (l := [m])
    rw [split, Write.run_append]
    exact ⟨List.forall_mem_append.2 ⟨fits, fits'⟩, rfl⟩

end Move

namespace Block
variable {b : Block} {kind : StepKind} {ctx : ResolutionContext}

/-- What the attributes of the body write. -/
def bodyWrites (b : Block) (kind : StepKind) (ctx : ResolutionContext) : List Write :=
  Move.writes ctx (b.attributes.flatMap (·.moves kind))

/-- What the inner blocks of the kind write. -/
def innerWrites (b : Block) (kind : StepKind) (ctx : ResolutionContext) : List Write :=
  Move.writes ctx (b.blocks.flatMap (innerMoves kind))

/-- No inner block sets to something else what the body sets. -/
def Undisturbed (b : Block) (kind : StepKind) (ctx : ResolutionContext) : Prop :=
  ∀ f ∈ b.bodyWrites kind ctx, ∀ g ∈ b.innerWrites kind ctx, f.Agrees kind g

theorem writes_moves : Move.writes ctx (b.moves kind) =
    b.bodyWrites kind ctx ++ b.innerWrites kind ctx := List.filterMap_append

theorem sets_of_bodyWrites {f : Write} (hf : f ∈ b.bodyWrites kind ctx) : f.Sets := by
  obtain ⟨m, hm, hw⟩ := List.mem_filterMap.1 hf
  obtain ⟨a, -, hm⟩ := List.mem_flatMap.1 hm
  unfold Attribute.moves at hm
  split at hm
  · split at hm
    · cases hm
    · obtain rfl := List.mem_singleton.1 hm
      simp only [Move.write?] at hw
      split at hw <;> cases hw
      trivial
  · split at hm
    · obtain rfl := List.mem_singleton.1 hm
      simp only [Move.write?] at hw
      split at hw <;> cases hw <;> trivial
    · cases hm

/-- The moves of a body that is not disturbed can be run again after those of its inner blocks. -/
theorem Undisturbed.runAll_again (undisturbed : b.Undisturbed kind ctx) {x y z : Intake}
    (hk : x.spec.kind = kind) (sorted : x.deferred.Sorted)
    (ran : Move.runAll ctx (b.moves kind) x = some y)
    (again : Move.runAll ctx (b.attributes.flatMap (·.moves kind)) y = some z) : z = y := by
  obtain ⟨fits, rfl⟩ := Move.runAll_eq_run ran
  obtain ⟨-, rfl⟩ := Move.runAll_eq_run again
  subst hk
  rw [writes_moves] at fits ⊢
  obtain ⟨body, inner⟩ := List.forall_mem_append.1 fits
  exact Write.run_again rfl sorted (fun f hf => sets_of_bodyWrites hf) body inner undisturbed

end Block
end PipelineResolution
