import PipelineResolution.Proofs.Dict
import PipelineResolution.Proofs.Pipeline.Schedulable

/-!
# Binding parameters

A default is checked against the declared type when its parameter is decoded, after all attributes
are known. So binding the arguments of a run can only fail for what was supplied, was not supplied
though it has to be, or was never declared.
-/
namespace PipelineResolution
variable {ctx : ResolutionContext} {b : Block}

namespace Param
variable {q : Param} {supplied : Option Value}

/-- The default, if there is one, is of the declared type. -/
def Sound (q : Param) : Prop := ∀ v, q.default = some v → q.accepts v = true

/-- A run may supply a value of the declared type, or nothing where there is a default or the
parameter is optional. -/
def Admits (q : Param) : Option Value → Prop
  | some v => q.accepts v = true
  | none => q.default.isSome = true ∨ q.optional = true

instance (q : Param) : DecidablePred q.Admits
  | some v => inferInstanceAs (Decidable (q.accepts v = true))
  | none => inferInstanceAs (Decidable (_ ∨ _))

/-- The supplied value, else the default, else null. -/
def valueOf (q : Param) (supplied : Option Value) : Value := (supplied.or q.default).getD .null

/-- The report on what a run may not supply: a value of another type, or nothing. -/
def complaint (q : Param) : Option Value → Diagnostic
  | some v => (Diagnostic.error "Invalid param value" ("Param \"" ++ q.name ++ "\" must be of type "
      ++ Keyword.spell q.type ++ ", got " ++ v.typeName ++ ".")).about q.location
  | none => (Diagnostic.error "Missing param" ("Param \"" ++ q.name ++ "\" is required.")).about
      q.location

theorem sound_ofBlock (h : ofBlock b ctx = .ok q) : q.Sound := by
  unfold ofBlock at h
  split at h
  · cases h
  · obtain ⟨checked, rfl⟩ := Diagnostics.orValue_eq_ok.1 h
    intro v hv
    simp only [Diagnostics.hasErrors_append, Bool.or_eq_false_iff, checkDefault, hv] at checked
    by_contra other
    rw [if_neg other] at checked
    cases checked.2

theorem bind_eq (sound : q.Sound) (supplied : Option Value) : q.bind supplied =
    if q.Admits supplied then .ok (q.valueOf supplied) else .error (q.complaint supplied) := by
  cases supplied with
  | some v => rfl
  | none =>
    cases hd : q.default with
    | some v =>
      have fits : q.accepts v = true := sound v hd
      simp [bind, Admits, valueOf, hd, fits]
    | none => cases ho : q.optional <;> simp [bind, Admits, valueOf, complaint, isRequired, hd, ho]

end Param

namespace Pipeline
variable {p : Pipeline} {arguments : Dict Value}

def ParamsSound (p : Pipeline) : Prop := ∀ q ∈ p.params, q.Sound

theorem paramsSound_setAttribute (h : p.ParamsSound) (a : Attribute) :
    (setAttribute ctx p a).1.ParamsSound := by
  unfold setAttribute
  dsimp only
  split
  · split <;> exact h
  · split <;> exact h
  · exact h

theorem paramsSound_addBlock (h : p.ParamsSound) (b : Block) :
    (addBlock ctx p b).1.ParamsSound := by
  unfold addBlock declare
  split
  · split
    · rename_i q decoded
      split
      · exact h
      · exact List.forall_mem_append.2
          ⟨h, List.forall_mem_singleton.2 (Param.sound_ofBlock decoded)⟩
    · exact h
  · split
    · split <;> exact h
    · exact h
  · split
    · split <;> exact h
    · exact h
  · exact h

theorem paramsSound_ofBlock (h : ofBlock b ctx = .ok p) : p.ParamsSound :=
  ofBlock_keeps h (fun _ _ _ hq => nomatch hq) (fun _ a h => paramsSound_setAttribute h a)
    fun _ b h => paramsSound_addBlock h b

def Declares (p : Pipeline) (name : String) : Prop := ∃ q ∈ p.params, q.name = name

instance (p : Pipeline) : DecidablePred p.Declares :=
  fun _ => inferInstanceAs (Decidable (∃ q ∈ p.params, _))

/-- Every argument is declared, and every parameter admits its argument or the lack of one. -/
structure Admits (p : Pipeline) (arguments : Dict Value) : Prop where
  declared : ∀ name ∈ arguments.keys, p.Declares name
  params : ∀ q ∈ p.params, q.Admits (arguments.get? q.name)

instance (p : Pipeline) (arguments : Dict Value) : Decidable (p.Admits arguments) :=
  decidable_of_iff (_ ∧ _) ⟨fun h => ⟨h.1, h.2⟩, fun h => ⟨h.declared, h.params⟩⟩

/-- The report on an argument without a parameter. -/
def undeclared (p : Pipeline) (name : String) : Diagnostic :=
  (Diagnostic.error "Unknown param" ("Pipeline \"" ++ p.name
    ++ "\" does not declare a param named \"" ++ name ++ "\".")).about p.location

/-- The parameters that do not admit what is supplied, in the order of their declaration. -/
def offended (p : Pipeline) (arguments : Dict Value) : List Param :=
  p.params.filter fun q => ¬q.Admits (arguments.get? q.name)

/-- The arguments without a parameter. -/
def strangers (p : Pipeline) (arguments : Dict Value) : List String :=
  arguments.keys.filter fun name => ¬p.Declares name

theorem admits_iff : p.Admits arguments ↔
    p.offended arguments = [] ∧ p.strangers arguments = [] := by
  simp only [offended, strangers, List.filter_eq_nil_iff, decide_not, Bool.not_eq_true',
    decide_eq_false_iff_not, not_not]
  exact ⟨fun h => ⟨h.params, h.declared⟩, fun h => ⟨h.2, h.1⟩⟩

/-- Each parameter enters the dictionary or is reported. -/
def bindStep (arguments : Dict Value) (bound : Dict Value) (q : Param) :
    Dict Value × Diagnostics :=
  match q.bind (arguments.get? q.name) with
  | .ok v => (bound.insert q.name v, [])
  | .error d => (bound, [d])

theorem reports_bindStep (arguments : Dict Value) {qs : List Param} (sound : ∀ q ∈ qs, q.Sound)
    (bound : Dict Value) :
    (Diagnostics.gather (bindStep arguments) bound qs).2 =
      (qs.filter fun q => ¬q.Admits (arguments.get? q.name)).map fun q =>
        q.complaint (arguments.get? q.name) := by
  induction qs generalizing bound with
  | nil => rfl
  | cons q qs ih =>
    obtain ⟨hq, sound⟩ := List.forall_mem_cons.1 sound
    dsimp only [Diagnostics.gather]
    rw [ih sound, bindStep, Param.bind_eq hq]
    by_cases admitted : q.Admits (arguments.get? q.name) <;> simp [admitted]

theorem bound_bindStep {qs : List Param} (sound : ∀ q ∈ qs, q.Sound)
    (admitted : ∀ q ∈ qs, q.Admits (arguments.get? q.name)) (bound : Dict Value) :
    (Diagnostics.gather (bindStep arguments) bound qs).1 =
      (qs.map fun q => (q.name, q.valueOf (arguments.get? q.name))).foldl
        (fun d (name, v) => d.insert name v) bound := by
  induction qs generalizing bound with
  | nil => rfl
  | cons q qs ih =>
    obtain ⟨hq, sound⟩ := List.forall_mem_cons.1 sound
    obtain ⟨first, admitted⟩ := List.forall_mem_cons.1 admitted
    dsimp only [Diagnostics.gather]
    rw [ih sound admitted, bindStep, Param.bind_eq hq, if_pos first]
    rfl

/-- What is reported on the arguments of a run. -/
def complaints (p : Pipeline) (arguments : Dict Value) : Diagnostics :=
  (p.offended arguments).map (fun q => q.complaint (arguments.get? q.name)) ++
    (p.strangers arguments).map p.undeclared

theorem hasErrors_complaints :
    (p.complaints arguments).hasErrors = false ↔ p.Admits arguments := by
  have complaint : ∀ (q : Param) supplied, (q.complaint supplied).isError = true := by
    rintro q (_ | v) <;> rfl
  have undeclared : ∀ name, (p.undeclared name).isError = true := fun _ => rfl
  rw [admits_iff]
  constructor
  · intro silent
    have none : p.complaints arguments = [] := by
      by_contra some
      rw [Diagnostics.hasErrors_of_forall (fun d hd => ?_) some] at silent
      · cases silent
      · rcases List.mem_append.1 hd with hd | hd <;> obtain ⟨x, -, rfl⟩ := List.mem_map.1 hd
        · exact complaint x _
        · exact undeclared x
    simpa [complaints] using none
  · rintro ⟨offended, strangers⟩
    rw [complaints, offended, strangers]
    rfl

theorem bind_eq (h : ofBlock b ctx = .ok p) (arguments : Dict Value) :
    p.bind arguments = Diagnostics.orValue (p.complaints arguments)
      (Diagnostics.gather (bindStep arguments) [] p.params).1 := by
  have unknown : (arguments.keys.filter fun name => (p.param? name).isNone) =
      p.strangers arguments := by
    refine List.filter_congr fun name _ => ?_
    rw [Bool.eq_iff_iff]
    simp [param?, Declares]
  have reports := reports_bindStep arguments (paramsSound_ofBlock h) []
  unfold complaints offended
  rw [← reports, ← unknown]
  rfl

/-- The arguments of a run are bound exactly if they are what the pipeline declares. Each parameter
is then bound to its argument, else to its default, else to null; otherwise there is one report for
each parameter that does not admit what is supplied, and then one for each argument that is not
declared. -/
theorem bind_contract (h : ofBlock b ctx = .ok p) (arguments : Dict Value) :
    ((∃ bound, p.bind arguments = .ok bound) ↔ p.Admits arguments) ∧
      (∀ bound, p.bind arguments = .ok bound → bound.Sorted ∧ ∀ name v,
        bound.get? name = some v ↔
          ∃ q ∈ p.params, q.name = name ∧ q.valueOf (arguments.get? name) = v) ∧
      ∀ ds, p.bind arguments = .error ds →
        ds = (p.offended arguments).map (fun q => q.complaint (arguments.get? q.name)) ++
          (p.strangers arguments).map p.undeclared := by
  have sound := paramsSound_ofBlock h
  have distinct : (p.params.map Param.name).Nodup := by
    obtain ⟨name, -, grown, -⟩ := exists_of_ofBlock h
    exact (grown.distinct ⟨List.nodup_nil, List.nodup_nil, List.nodup_nil⟩).params
  rw [bind_eq h]
  refine ⟨?_, fun bound hbound => ?_, fun ds hds => ?_⟩
  · rw [← hasErrors_complaints]
    simp only [Diagnostics.orValue_eq_ok]
    exact ⟨fun ⟨_, silent, _⟩ => silent, fun silent => ⟨_, silent, rfl⟩⟩
  · obtain ⟨silent, rfl⟩ := Diagnostics.orValue_eq_ok.1 hbound
    have admitted := hasErrors_complaints.1 silent
    rw [bound_bindStep sound admitted.params]
    refine ⟨Dict.sorted_ofEntries _, fun name v => ?_⟩
    refine (Dict.get?_ofEntries (by simpa [Function.comp_def] using distinct)).trans ?_
    simp only [List.mem_map, Prod.mk.injEq]
    exact exists_congr fun q => and_congr_right fun _ =>
      ⟨fun ⟨name, value⟩ => ⟨name, name ▸ value⟩, fun ⟨name, value⟩ => ⟨name, name ▸ value⟩⟩
  · unfold Diagnostics.orValue at hds
    split at hds
    · exact (Except.error.inj hds).symm
    · cases hds

/-- A job has a name by default, has to be told how often it runs, and may be given a note. -/
def jobBlock : Block where
  type := "pipeline"
  labels := ["job"]
  attributes := []
  blocks := [
    ⟨"param", ["name"], [⟨"default", .literal (.string "nightly"), default⟩,
      ⟨"type", .literal (.string "string"), default⟩], [], default, []⟩,
    ⟨"param", ["count"], [⟨"type", .literal (.string "number"), default⟩], [], default, []⟩,
    ⟨"param", ["note"], [⟨"optional", .literal (.bool true), default⟩], [], default, []⟩]
  location := default
  diagnostics := []

/-- A job that is told how often it runs has all it needs. One that is told by a text and given a zone
is reported for both. -/
theorem bind_contract_job : ∃ p, ofBlock jobBlock ⟨.empty, {}, .plain, .brief⟩ = .ok p ∧
    (∃ bound, p.bind [("count", .ofInt 3)] = .ok bound ∧ bound.Sorted ∧
      ∀ name v, bound.get? name = some v ↔
        ∃ q ∈ p.params, q.name = name ∧ q.valueOf (Dict.get? [("count", .ofInt 3)] name) = v) ∧
    ∃ ds, p.bind [("count", .string "3"), ("zone", .null)] = .error ds ∧
      ds.map (·.detail) = ["Param \"count\" must be of type number, got string.",
        "Pipeline \"job\" does not declare a param named \"zone\"."] := by
  obtain ⟨p, accepted, admits, denies, reports⟩ :
      ∃ p, ofBlock jobBlock ⟨.empty, {}, .plain, .brief⟩ = .ok p ∧ p.Admits [("count", .ofInt 3)] ∧
        ¬p.Admits [("count", .string "3"), ("zone", .null)] ∧
        (p.complaints [("count", .string "3"), ("zone", .null)]).map (·.detail) =
          ["Param \"count\" must be of type number, got string.",
            "Pipeline \"job\" does not declare a param named \"zone\"."] := by decide +kernel
  obtain ⟨bound, found⟩ := (bind_contract accepted _).1.2 admits
  refine ⟨p, accepted, ⟨bound, found, (bind_contract accepted _).2.1 bound found⟩, ?_⟩
  cases refused : p.bind [("count", .string "3"), ("zone", .null)] with
  | ok bound => exact absurd ((bind_contract accepted _).1.1 ⟨bound, refused⟩) denies
  | error ds => exact ⟨ds, rfl, (bind_contract accepted _).2.2 ds refused ▸ reports⟩

end Pipeline
end PipelineResolution
