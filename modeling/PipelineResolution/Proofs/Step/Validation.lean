import PipelineResolution.Proofs.Step.Checks
import PipelineResolution.Proofs.Step.Replay

/-!
# Deferral does not bypass validation

A value that is refused where it is written out is refused at run time too. The settings of the block
with the value written out lie between those that are known before the run and those that the run
fills in, so the rules of the kind cannot be broken there alone.
-/
namespace PipelineResolution

namespace Addressing
variable {P : Type} [Addressing P] {env : Environment} {d : Dict Expression} {p r : P}

/-- The payload with the values of the deferred attributes of the kind. -/
def storeAll (env : Environment) (d : Dict Expression) (p : P) : P :=
  List.foldl (fun p (entry : String × Expression) =>
    if entry.1 ∈ Step.waitingNames then p else store entry.1 (entry.2.valueIn env) p) p d

theorem storeAll_cons (entry : String × Expression) : storeAll env (entry :: d) p = storeAll env d
    (if entry.1 ∈ Step.waitingNames then p else store entry.1 (entry.2.valueIn env) p) := rfl

theorem storeAll_preserves {I : P → Prop} (h : I p) (step : ∀ entry ∈ d,
    entry.1 ∉ Step.waitingNames → ∀ p, I p → I (store entry.1 (entry.2.valueIn env) p)) :
    I (storeAll env d p) := by
  induction d generalizing p with
  | nil => exact h
  | cons entry d ih =>
    obtain ⟨first, rest⟩ := List.forall_mem_cons.1 step
    rw [storeAll_cons]
    refine ih ?_ rest
    split
    · exact h
    · rename_i own
      exact first own p h

variable [Payload P] [LawfulAddressing P] {a : Place} {f : Field P} {name x : String} {v w : Value}

theorem get_store (hf : field? (place P name) = some f) {d : f.type.Data}
    (hd : f.type.convert name v = .ok d) (p : P) : f.get (store name v p) = some d := by
  unfold store
  simp only [hf, hd]
  exact (LawfulAddressing.lawful hf).get_put d p

theorem get_store_of_ne (ne : a ≠ place P name) (hf : field? a = some f) (v : Value) (p : P) :
    f.get (store name v p) = f.get p := by
  rcases store_cases P name v with kept | ⟨g, d, hg, kept⟩
  · rw [kept]
  · rw [kept]
    exact LawfulAddressing.get_put (Ne.symm ne) hg hf d p

/-- What is set stays set. -/
theorem isSome_store (hf : field? a = some f) (h : (f.get p).isSome) (name : String) (v : Value) :
    (f.get (store name v p)).isSome := by
  rcases store_cases P name v with kept | ⟨g, d, hg, kept⟩
  · rwa [kept]
  · rw [kept]
    by_cases same : a = place P name
    · obtain rfl : f = g := Option.some.inj (hf.symm.trans (same ▸ hg))
      rw [(LawfulAddressing.lawful hf).get_put]
      rfl
    · rwa [LawfulAddressing.get_put (Ne.symm same) hg hf]

theorem mem_declared_store (h : x ∈ declared (store name v p)) :
    (place P name).option? = some x ∨ x ∈ declared p := by
  rcases store_cases P name v with kept | ⟨f, d, hf, kept⟩
  · exact .inr (kept p ▸ h)
  · rw [kept] at h
    exact (LawfulAddressing.mem_declared_put hf).1 h

/-- A value that is there or stored on the way is there in the end, if nothing else is stored in its
place. -/
theorem get_storeAll (hf : field? (place P name) = some f) {data : f.type.Data}
    (hd : f.type.convert name v = .ok data) (only : ∀ entry ∈ d, entry.1 ∉ Step.waitingNames →
      place P entry.1 = place P name → entry.1 = name ∧ entry.2.valueIn env = v)
    (own : name ∉ Step.waitingNames) (stored : f.get p = some data ∨ name ∈ d.map Prod.fst) :
    f.get (storeAll env d p) = some data := by
  induction d generalizing p with
  | nil => exact stored.resolve_right List.not_mem_nil
  | cons entry d ih =>
    obtain ⟨first, only⟩ := List.forall_mem_cons.1 only
    rw [storeAll_cons]
    refine ih only ?_
    by_cases waiting : entry.1 ∈ Step.waitingNames
    · rw [if_pos waiting]
      refine stored.imp_right fun mem => (List.mem_cons.1 mem).resolve_left fun same => own ?_
      rwa [same]
    · rw [if_neg waiting]
      by_cases same : place P entry.1 = place P name
      · obtain ⟨rfl, rfl⟩ := first waiting same
        exact .inl (get_store hf hd p)
      · rw [get_store_of_ne (Ne.symm same) hf]
        exact stored.imp_right fun mem => (List.mem_cons.1 mem).resolve_left fun h => same (h ▸ rfl)

/-- Settings that are those of another payload but for a value in the place of an attribute. -/
structure Follows (name : String) (v : Value) (p r : P) : Prop where
  get {a : Place} {f : Field P} : field? a = some f → f.get r = f.get p ∨
    a = place P name ∧ ∀ d, f.type.convert name v = .ok d → f.get r = some d
  declared : declared p ⊆ declared r
  distinct : (Addressing.declared r).Nodup

namespace Follows

theorem empty (P : Type) [Payload P] [Addressing P] [LawfulAddressing P] (name : String) (v : Value) :
    Follows name v (Payload.empty : P) Payload.empty :=
  ⟨fun _ => .inl rfl, List.Subset.refl _, LawfulAddressing.nodup_empty⟩

theorem store (h : Follows name v p r) (other : String) (w : Value) :
    Follows name v (store other w p) (store other w r) := by
  rcases store_cases P other w with kept | ⟨g, c, hg, kept⟩
  · rwa [kept, kept]
  · rw [kept, kept]
    refine ⟨fun {a f} hf => ?_, fun x hx => ?_, LawfulAddressing.nodup_put hg h.distinct c⟩
    · by_cases same : a = place P other
      · obtain rfl : f = g := Option.some.inj (hf.symm.trans (same ▸ hg))
        rw [(LawfulAddressing.lawful hf).get_put, (LawfulAddressing.lawful hf).get_put]
        exact .inl rfl
      · rw [LawfulAddressing.get_put (Ne.symm same) hg hf,
          LawfulAddressing.get_put (Ne.symm same) hg hf]
        exact h.get hf
    · rw [LawfulAddressing.mem_declared_put hg] at hx ⊢
      exact hx.imp_right fun hx => h.declared hx

theorem value (h : Follows name v p r) : Follows name v p (Addressing.store name v r) := by
  rcases store_cases P name v with kept | ⟨g, c, hg, kept⟩
  · rwa [kept]
  · refine ⟨fun {a f} hf => ?_, fun x hx => ?_, ?_⟩
    · by_cases same : a = place P name
      · exact .inr ⟨same, fun d hd => get_store (same ▸ hf) hd r⟩
      · rw [get_store_of_ne same hf]
        exact h.get hf
    · rw [kept, LawfulAddressing.mem_declared_put hg]
      exact .inr (h.declared hx)
    · rw [kept]
      exact LawfulAddressing.nodup_put hg h.distinct c

theorem «open» (h : Follows name v p r) (type : String) (labels : List String) :
    Follows name v (Payload.openBlock type labels p) (Payload.openBlock type labels r) where
  get hf := by
    rw [LawfulAddressing.get_open hf, LawfulAddressing.get_open hf]
    exact h.get hf
  declared := LawfulAddressing.declared_open h.declared type labels
  distinct := LawfulAddressing.nodup_open h.distinct type labels

/-- Settings with a later value lie on the way to those with all later values. -/
theorem between {e : Expression} (h : Follows name v p r) (fits : Fits P name v)
    (sorted : d.Sorted) (mem : (name, e) ∈ d) (value : e.valueIn env = v)
    (own : name ∉ Step.waitingNames) (kind : Payload.accepts P name)
    (accepted : ∀ entry ∈ d, entry.1 ∉ Step.waitingNames → Payload.accepts P entry.1)
    (typed : place P name = .own "type" →
      ∀ entry ∈ d, (place P entry.1).option?.isSome → Addressing.declared p ≠ []) :
    Between p (storeAll env d p) r := by
  have chosen : Addressing.declared r = [] → Addressing.declared p = [] :=
    fun none => List.eq_nil_of_subset_nil (none ▸ h.declared)
  refine ⟨fun {a f} hf hp => ?_, fun {a f} hf alone => ?_, h.distinct, chosen, fun {f} hf none => ?_⟩
  · exact storeAll_preserves (I := fun q => (f.get q).isSome) hp
      fun entry _ _ q hq => isSome_store hf hq entry.1 _
  · refine (h.get hf).imp_right ?_
    rintro ⟨rfl, stored⟩
    obtain ⟨data, hd⟩ := fits f hf
    refine (stored data hd).trans (get_storeAll hf hd (fun entry he hn same => ?_) own ?_).symm
    · -- Another attribute can only take the place of this one where they share it.
      have named : entry.1 = name := by
        by_contra ne
        exact alone ⟨entry.1, name, ne, accepted entry he hn, kind, same, rfl⟩
      refine ⟨named, ?_⟩
      have found := sorted.get?_of_mem he
      rw [named, sorted.get?_of_mem mem] at found
      rw [← Option.some.inj found, value]
    · exact .inr (List.mem_map.2 ⟨_, mem, rfl⟩)
  · refine (h.get hf).imp_right fun ⟨same, _⟩ => ?_
    refine storeAll_preserves (I := fun q : P => Addressing.declared q = []) (chosen none)
      fun entry he _ q hq => List.eq_nil_iff_forall_not_mem.2 fun x hx => ?_
    rcases mem_declared_store hx with hx | hx
    · exact typed same.symm entry he (Option.isSome_of_eq_some hx) (chosen none)
    · rw [hq] at hx
      cases hx

end Follows
end Addressing

namespace StepSpec

/-- The choices that are declared. -/
def choices (s : StepSpec) : List String := Addressing.declared s.settings

theorem settle_mk {env : Environment} {d : Dict Expression} (k : StepKind) (p : k.Settings) :
    settle env d ⟨k, p⟩ = ⟨k, Addressing.storeAll env d p⟩ := by
  induction d generalizing p with
  | nil => rfl
  | cons entry d ih =>
    rw [settle_cons, Addressing.storeAll_cons]
    split
    · exact ih p
    · exact ih _

end StepSpec

/-- The value of an attribute in place of its expression. -/
def Expression.writing (name : String) (v : Value) (other : String) (e : Expression) : Expression :=
  if other = name then .literal v else e

/-- The block with a value written out under the full name of an attribute. -/
def Block.written (b : Block) (kind : StepKind) (name : String) (v : Value) : Block :=
  b.mapAttributes kind (Expression.writing name v)

namespace Move
variable {ctx : ResolutionContext} {k : StepKind} {name : String} {v : Value} {x x' y : Intake}
  {m : Move} {ms : List Move}

/-- Two intakes of a kind of which the second has a value already that waits in the first. -/
def Tracks (k : StepKind) (name : String) (v : Value) (x y : Intake) : Prop :=
  ∃ p r : k.Settings, x.spec = ⟨k, p⟩ ∧ y.spec = ⟨k, r⟩ ∧ Addressing.Follows name v p r

theorem tracks_run (fits : k.Fits name v) (h : Tracks k name v x y) (hx : m.run ctx x = some x') :
    ∃ y', (m.map (Expression.writing name v)).run ctx y = some y' ∧ Tracks k name v x' y' := by
  obtain ⟨_, dx⟩ := x
  obtain ⟨_, dy⟩ := y
  obtain ⟨p, r, rfl, rfl, follows⟩ := h
  cases m with
  | wait a =>
    cases hx
    refine ⟨_, rfl, p, r, ?_, ?_, follows⟩ <;> split <;> rfl
  | «open» type labels =>
    cases hx
    exact ⟨_, rfl, _, _, rfl, rfl, follows.open type labels⟩
  | set other a =>
    by_cases same : other = name
    · -- The value is written out wherever the name stands, so what stood there before does not count.
      subst same
      let literal : Attribute := { a with expression := Expression.writing other v other a.expression }
      have written := (run_set_of_resolved (x := ⟨⟨k, r⟩, dy⟩)
        (Attribute.resolve_literal (a := literal) (if_pos rfl) ctx)).2 ⟨fits, rfl⟩
      obtain ⟨w, -, -, rfl⟩ | ⟨-, rfl⟩ := run_set_cases hx
      · have stored := (follows.store other w).value
        rw [Addressing.store_store rfl fits] at stored
        exact ⟨_, written, _, _, rfl, rfl, stored⟩
      · exact ⟨_, written, p, _, rfl, rfl, follows.value⟩
    · have kept : (Move.set other a).map (Expression.writing name v) = .set other a :=
        congrArg (fun e => Move.set other { a with expression := e }) (if_neg same)
      rw [kept]
      obtain ⟨w, ho, fits', rfl⟩ | ⟨ho, rfl⟩ := run_set_cases hx
      · exact ⟨_, (run_set_of_resolved ho).2 ⟨fits', rfl⟩, _, _, rfl, rfl, follows.store other w⟩
      · exact ⟨_, run_set_of_deferred ho, p, r, rfl, rfl, follows⟩

theorem tracks_runAll (fits : k.Fits name v) (h : Tracks k name v x y)
    (hx : runAll ctx ms x = some x') :
    ∃ y', runAll ctx (ms.map (Move.map (Expression.writing name v))) y = some y' ∧
      Tracks k name v x' y' := by
  induction ms generalizing x y with
  | nil =>
    cases hx
    exact ⟨y, rfl, h⟩
  | cons m ms ih =>
    obtain ⟨x₁, hm, hx⟩ := Option.bind_eq_some_iff.1 (runAll_cons.symm.trans hx)
    obtain ⟨y₁, hm', h'⟩ := tracks_run fits h hm
    obtain ⟨y', hy, h''⟩ := ih h' hx
    refine ⟨y', ?_, h''⟩
    rw [List.map_cons, runAll_cons, hm', Option.bind_some, hy]

/-- What waits in a kind's intake are attributes of the kind, unless every step takes them. -/
structure Waits (k : StepKind) (d : Dict Expression) : Prop where
  sorted : d.Sorted
  accepted : ∀ entry ∈ d, entry.1 ∉ Step.waitingNames → k.accepts entry.1

theorem Waits.insert {d : Dict Expression} (h : Waits k d)
    (accepted : name ∉ Step.waitingNames → k.accepts name) (e : Expression) :
    Waits k (d.insert name e) where
  sorted := h.sorted.insert name e
  accepted entry he own := by
    rcases Dict.mem_insert he with rfl | he
    · exact accepted own
    · exact h.accepted entry he own

theorem waits_run {b : Block} (mem : m ∈ b.moves k) (h : Waits k x.deferred)
    (hx : m.run ctx x = some y) : Waits k y.deferred := by
  cases m with
  | wait a =>
    cases hx
    split
    · exact h.insert (fun own => absurd (Block.waiting_of_wait mem) own) a.expression
    · exact h
  | «open» type labels =>
    cases hx
    exact h
  | set name a =>
    obtain ⟨v, -, -, rfl⟩ | ⟨-, rfl⟩ := run_set_cases hx
    · exact h
    · exact h.insert (fun _ => (Block.accepts_of_set mem).2) a.expression

/-- The rules are kept on the way if they are kept before a run and in the end. -/
theorem Tracks.check {env : Environment} {d : Dict Expression} {e : Expression} {l : Location}
    (h : Tracks k name v x y) (fits : k.Fits name v) (waits : Waits k d) (mem : (name, e) ∈ d)
    (value : e.evaluate env = .ok v) (own : name ∉ Step.waitingNames) (kind : k.accepts name)
    (typed : k.place name = .own "type" →
      ∀ entry ∈ d, (k.place entry.1).option?.isSome → x.spec.choices ≠ [])
    (first : (x.spec.check l).hasErrors = false)
    (last : ((x.spec.settle env d).check l).hasErrors = false) :
    (y.spec.check l).hasErrors = false := by
  obtain ⟨_, dx⟩ := x
  obtain ⟨_, dy⟩ := y
  obtain ⟨p, r, rfl, rfl, follows⟩ := h
  rw [StepSpec.settle_mk] at last
  have between := follows.between fits waits.sorted mem (Expression.valueIn_eq value) own kind
    waits.accepted typed
  exact LawfulCheck.check_between between first last

end Move

theorem StepKind.accepts_common (k : StepKind) : ∀ name ∈ Step.commonNames, k.accepts name = false := by
  cases k <;> decide

namespace Step
variable {s : Step} {env : Environment} {q : StepSpec} {d : Dict Expression}

/-- Where the deferred attributes are filled in without a report, they all have a value of their
type. -/
theorem settled_of_foldlM {timeout : Option Value} {ds : Diagnostics} {f : Filled}
    (h : List.foldlM (s.fill env) ⟨q, timeout, ds⟩ d = .ok f) (quiet : f.diagnostics = []) :
    ds = [] ∧ f.spec = q.settle env d ∧ ∀ entry ∈ d, entry.1 ∉ waitingNames →
      ∃ v, entry.2.evaluate env = .ok v ∧ q.kind.Fits entry.1 v := by
  induction d generalizing q timeout ds with
  | nil =>
    cases h
    exact ⟨quiet, rfl, fun _ he => nomatch he⟩
  | cons entry d ih =>
    obtain ⟨f₁, filled, h⟩ := bind_eq_ok.1 (List.foldlM_cons.symm.trans h)
    rw [StepSpec.settle_cons]
    cases hv : entry.2.evaluate env with
    | error found =>
      simp only [fill, hv] at filled
      cases filled
      obtain ⟨none, -⟩ := ih h
      have bad := Diagnostics.hasErrors_orAbout found (s.location.child entry.1)
      rw [(List.append_eq_nil_iff.1 none).2, Expression.hasErrors_of_evaluateWith hv] at bad
      cases bad
    | ok v =>
      simp only [fill, hv] at filled
      by_cases waiting : entry.1 ∈ waitingNames
      · rw [put_waiting waiting] at filled
        cases filled
        obtain ⟨none, settled, fits⟩ := ih h
        rw [if_pos waiting]
        exact ⟨none, settled, List.forall_mem_cons.2 ⟨fun own => absurd waiting own, fits⟩⟩
      · rw [put_own waiting] at filled
        cases hs : q.set entry.1 v with
        | error m =>
          simp only [hs] at filled
          cases filled
        | ok q' =>
          simp only [hs] at filled
          cases filled
          obtain ⟨hfit, rfl⟩ := StepSpec.set_eq_ok.1 hs
          obtain ⟨none, settled, fits⟩ := ih h
          rw [if_neg waiting, Expression.valueIn_eq hv]
          exact ⟨none, settled, List.forall_mem_cons.2 ⟨fun _ => ⟨v, hv, hfit⟩, fits⟩⟩

/-- Inputs that are handed over come from values of the right types, and break no rule. -/
theorem settled_of_inputs {r : Dict Value} (h : s.inputs env = .ok r) :
    (∀ entry ∈ s.deferred, entry.1 ∉ waitingNames →
      ∃ v, entry.2.evaluate env = .ok v ∧ s.kind.Fits entry.1 v) ∧
    ((s.spec.settle env s.deferred).check s.location).hasErrors = false := by
  obtain ⟨f, filled, h⟩ := bind_eq_ok.1 h
  split at h
  · cases h
  · rename_i quiet
    obtain ⟨-, settled, fits⟩ := settled_of_foldlM filled (by simpa using quiet)
    refine ⟨fits, ?_⟩
    rw [← settled]
    split at h
    · cases h
    · dsimp only at h
      split at h
      · cases h
      · rename_i sound
        simpa using sound

section
variable {b : Block} {pipeline name : String} {ctx : ResolutionContext} {v : Value}

theorem check_of_ofBlock (accepted : ofBlock b pipeline ctx = .ok s) : s.check.hasErrors = false := by
  obtain ⟨word, name, kind, -, -, -, sound, rfl⟩ := exists_of_ofBlock accepted
  exact sound

theorem waits_of_ofBlock (accepted : ofBlock b pipeline ctx = .ok s) :
    Move.Waits s.kind s.deferred := by
  have nothing : Move.Waits s.kind [] := ⟨.nil, fun _ he => nomatch he⟩
  exact Move.runAll_preserves (I := fun x => Move.Waits s.kind x.deferred)
    (fun _ hm _ _ h => Move.waits_run hm h) nothing (run_moves accepted)

/-- A value of the right type can be written out; what is left to do is the check. -/
theorem ofBlock_written (accepted : ofBlock b pipeline ctx = .ok s) (uncommon : name ∉ commonNames)
    (fits : s.kind.Fits name v) : ∃ y d ds, Move.Tracks s.kind name v s.intake y ∧
      Diagnostics.hasErrors ds = false ∧ ofBlock (b.written s.kind name v) pipeline ctx =
        Diagnostics.orValue (ds ++ (s.taking y d).check) (s.taking y d) := by
  have empty : Move.Tracks s.kind name v ⟨.ofKind s.kind, []⟩ ⟨.ofKind s.kind, []⟩ :=
    ⟨Payload.empty, Payload.empty, rfl, rfl, .empty s.kind.Settings name v⟩
  obtain ⟨y, taken, tracks⟩ := Move.tracks_runAll fits empty (run_moves accepted)
  have fixed : ∀ common ∈ commonNames, ∀ e, Expression.writing name v common e = e :=
    fun common hc e => if_neg fun same : common = name => uncommon (same ▸ hc)
  obtain ⟨d, ds, quiet, decoded⟩ := ofBlock_mapAttributes fixed accepted taken
  exact ⟨y, d, ds, tracks, quiet, decoded⟩

end

/-- An attribute of the kind whose value is refused where it is written out is refused at run time
when it waits for that value, unless it is the type of an input whose choices wait as well. -/
theorem inputs_error_of_rejected {b : Block} {pipeline name : String} {ctx : ResolutionContext}
    {e : Expression} {v : Value} {ds : Diagnostics} (accepted : ofBlock b pipeline ctx = .ok s)
    (kind : s.kind.accepts name) (deferred : s.deferred.get? name = some e)
    (value : e.evaluate env = .ok v)
    (rejected : ofBlock (b.written s.kind name v) pipeline ctx = .error ds)
    (typed : s.kind.place name = .own "type" → ∀ entry ∈ s.deferred,
      (s.kind.place entry.1).option?.isSome → s.spec.choices ≠ []) :
    ∃ err, s.inputs env = .error err := by
  cases result : s.inputs env with
  | error err => exact ⟨err, rfl⟩
  | ok r =>
    exfalso
    obtain ⟨fits, sound⟩ := settled_of_inputs result
    have mem := Dict.mem_of_get? deferred
    have uncommon : name ∉ commonNames := fun common => by
      rw [s.kind.accepts_common name common] at kind
      cases kind
    have own : name ∉ waitingNames := fun waiting => uncommon (common_of_waiting waiting)
    have fit : s.kind.Fits name v := by
      obtain ⟨w, hw, fit⟩ := fits _ mem own
      cases value.symm.trans hw
      exact fit
    obtain ⟨y, d, reports, tracks, quiet, decoded⟩ := ofBlock_written accepted uncommon fit
    have first := check_of_ofBlock accepted
    simp only [check, Diagnostics.hasErrors_append, Bool.or_eq_false_iff] at first
    have passed : (y.spec.check s.location).hasErrors = false :=
      tracks.check fit (waits_of_ofBlock accepted) mem value own kind typed first.1 sound
    have clean : (reports ++ (s.taking y d).check).hasErrors = false := by
      simp only [check, Diagnostics.hasErrors_append, Bool.or_eq_false_iff]
      exact ⟨quiet, passed, first.2⟩
    have written : ofBlock (b.written s.kind name v) pipeline ctx = .ok (s.taking y d) :=
      decoded.trans (Diagnostics.orValue_eq_ok.2 ⟨clean, rfl⟩)
    rw [written] at rejected
    cases rejected

/-- A run that gives a text that is no duration. -/
def timing : Environment := ⟨[("param", .map [("t", .string "abc")])]⟩

/-- The value that only the run knows. -/
def given : Expression := .term (.access (.variable "param") [.member "t"])

def pausing (attributes : List Attribute) : Block :=
  ⟨"step", ["sleep", "s"], attributes, [], default, []⟩

def paused (duration : Option Value) (d : Dict Expression) : Step :=
  { ofKind .sleep "s" "p" with
    spec := ⟨.sleep, (⟨duration⟩ : Sleep)⟩, deferred := d, location := default }

/-- A pause that waits for its length is accepted, and refused when that is no duration. -/
theorem inputs_error_of_rejected_sleep :
    ∃ s, ofBlock (pausing [⟨"duration", given, default⟩]) "p" ⟨.empty, {}, .plain, .brief⟩ = .ok s ∧
      ∃ err, s.inputs timing = .error err := by
  have accepted : ofBlock (pausing [⟨"duration", given, default⟩]) "p" ⟨.empty, {}, .plain, .brief⟩ =
      .ok (paused none [("duration", given)]) := rfl
  have kind : (paused none [("duration", given)]).kind.accepts "duration" := by decide
  have other : (paused none [("duration", given)]).kind.place "duration" ≠ .own "type" := by decide
  exact ⟨_, accepted, inputs_error_of_rejected accepted kind rfl (v := .string "abc") rfl rfl
    fun typed => absurd typed other⟩

/-- A timeout that waits is not looked at again. -/
theorem not_inputs_error_of_timeout :
    ¬∀ (b : Block) (pipeline name : String) (ctx : ResolutionContext) (env : Environment) (s : Step)
      (e : Expression) (v : Value) (ds : Diagnostics), ofBlock b pipeline ctx = .ok s →
      s.kind.accepts name ∨ name = "timeout" → s.deferred.get? name = some e →
      e.evaluate env = .ok v → ofBlock (b.written s.kind name v) pipeline ctx = .error ds →
      ∃ err, s.inputs env = .error err := by
  intro claim
  have accepted : ofBlock (pausing [⟨"duration", .literal (.string "1s"), default⟩,
      ⟨"timeout", given, default⟩]) "p" ⟨.empty, {}, .plain, .brief⟩ =
        .ok (paused (some (.string "1s")) [("timeout", given)]) := rfl
  obtain ⟨err, failed⟩ := claim _ _ "timeout" _ timing _ _ (.string "abc") _ accepted (.inr rfl) rfl
    rfl rfl
  have passed : (paused (some (.string "1s")) [("timeout", given)]).inputs timing =
    .ok [("duration", .string "1s"), ("timeout", .string "abc")] := rfl
  rw [passed] at failed
  cases failed

end Step
end PipelineResolution
