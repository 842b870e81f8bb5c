import PipelineResolution.Proofs.Step.ReadBack

/-!
# Equal payloads

Payloads are compared setting by setting, and the numbers in them numerically, so that zeros of both
signs are equal. A run cannot tell equal payloads apart: the engine receives equal inputs, the same
attribute is missing and the same rules are broken.
-/
namespace PipelineResolution

deriving instance BEq for HttpRequest, SqlQuery, PipelineCall, FunctionCall, Container, Email,
  Message, InputRequest, Sleep, Transform

instance : (kind : StepKind) → BEq kind.Settings
  | .http => inferInstanceAs (BEq HttpRequest)
  | .sleep => inferInstanceAs (BEq Sleep)
  | .email => inferInstanceAs (BEq Email)
  | .transform => inferInstanceAs (BEq Transform)
  | .query => inferInstanceAs (BEq SqlQuery)
  | .pipeline => inferInstanceAs (BEq PipelineCall)
  | .function => inferInstanceAs (BEq FunctionCall)
  | .container => inferInstanceAs (BEq Container)
  | .input => inferInstanceAs (BEq InputRequest)
  | .message => inferInstanceAs (BEq Message)

namespace StepSpec

/-- Equality of payloads, where numbers are compared numerically. -/
def equals (s t : StepSpec) : Bool :=
  if same : s.kind = t.kind then (same ▸ s.settings : t.kind.Settings) == t.settings else false

instance : BEq StepSpec := ⟨equals⟩

@[simp] theorem beq_mk (kind : StepKind) (p q : kind.Settings) :
    ((⟨kind, p⟩ : StepSpec) == ⟨kind, q⟩) = (p == q) := dif_pos rfl

end StepSpec

namespace Field

/-- What does not tell equal data apart does not tell equal settings apart. -/
theorem map_eq_of_beq {α β : Type} [BEq α] {a b : Option α} {g : α → β}
    (respects : ∀ c d, (c == d) = true → g c = g d) (h : (a == b) = true) : a.map g = b.map g := by
  revert h
  rcases a with _ | c <;> rcases b with _ | d
  · exact fun _ => rfl
  · exact nofun
  · exact nofun
  · exact fun h => congrArg some (respects c d h)

/-- Whether two structures agree in some fields. -/
def agree {P : Type} (fields : List (Field P)) (p q : P) : Bool :=
  fields.all fun f => f.get p == f.get q

end Field

theorem HttpRequest.beq_eq (p q : HttpRequest) :
    (p == q) = (Field.agree Payload.fields p q && p.auth == q.auth) := by
  cases p
  cases q
  simp only [Field.agree, Payload.fields, fields, List.all_cons, List.all_nil, Bool.and_assoc,
    Bool.true_and]
  rfl

theorem InputRequest.beq_eq (p q : InputRequest) :
    (p == q) = (Field.agree Payload.fields p q && p.options == q.options) := by
  cases p
  cases q
  simp only [Field.agree, Payload.fields, fields, List.all_cons, List.all_nil, Bool.and_assoc,
    Bool.true_and]
  rfl

/-- The kinds whose settings are all in fields. -/
def StepKind.Flat (kind : StepKind) : Prop := kind ≠ .http ∧ kind ≠ .input

theorem StepKind.beq_eq {kind : StepKind} (flat : kind.Flat) (p q : kind.Settings) :
    (p == q) = Field.agree Payload.fields p q := by
  obtain ⟨http, input⟩ := flat
  cases kind
  case http => exact absurd rfl http
  case input => exact absurd rfl input
  all_goals
    cases p
    cases q
    repeat refine congrArg (and _) ?_
    exact (Bool.and_true _).symm

namespace Number

theorem equals_self_ofInt (k : Int) : (ofInt k).equals (ofInt k) = true := by
  unfold ofInt ofFraction ofQuanta
  dsimp only
  split <;> simp only [equals, beq_self_eq_true]

/-- Equal numbers are the same, or zeros of both signs. -/
theorem toInt?_of_equals {n m : Number} (h : n.equals m = true) :
    n = m ∨ n.toInt? = some 0 ∧ m.toInt? = some 0 := by
  cases n with
  | nan => cases h
  | infinite => cases m <;> simp_all [equals]
  | finite s q _ =>
    cases m with
    | nan | infinite => cases h
    | finite t r _ =>
      simp only [equals, beq_iff_eq] at h
      obtain rfl : q = r := by rw [← natAbs_signedQuanta s q, h, natAbs_signedQuanta]
      by_cases zero : q = 0
      · subst zero
        have whole (s : Bool) (h : Representable 0) : (Number.finite s 0 h).toInt? = some 0 := by
          simp [toInt?, signedQuanta]
        exact .inr ⟨whole s _, whole t _⟩
      · left
        congr 1
        cases s <;> cases t <;> simp only [signedQuanta] at h ⊢ <;> simp at h <;> omega

end Number

namespace Value
variable {v w : Value} {d e : Dict Value}

theorem text?_of_equals (h : v.equals w = true) : v.text? = w.text? := by
  cases v <;> cases w <;> first | rfl | cases h | exact congrArg some (eq_of_beq h)

theorem get?_of_entriesEqual {key : String} (h : entriesEqual d e = true) :
    d.get? key >>= text? = (e.get? key >>= text?) := by
  induction d generalizing e with
  | nil =>
    cases e with
    | nil => rfl
    | cons => cases h
  | cons x d ih =>
    cases e with
    | nil => cases h
    | cons y e =>
      obtain ⟨k, v⟩ := x
      obtain ⟨l, w⟩ := y
      simp only [entriesEqual, Bool.and_eq_true, beq_iff_eq] at h
      obtain ⟨⟨rfl, same⟩, rest⟩ := h
      unfold Dict.get?
      split
      · exact text?_of_equals same
      · exact ih rest

theorem pipelineName?_of_equals (h : v.equals w = true) : v.pipelineName? = w.pipelineName? := by
  cases v with
  | string s =>
    cases w with
    | string t => exact congrArg some (eq_of_beq h)
    | _ => cases h
  | map d =>
    cases w with
    | map e => exact get?_of_entriesEqual h
    | _ => cases h
  | null | bool | number | list => cases w <;> first | rfl | cases h

theorem duration_of_equals (h : v.equals w = true) : Duration.ofValue v = Duration.ofValue w := by
  cases v with
  | number n =>
    cases w with
    | number m =>
      rcases Number.toInt?_of_equals h with rfl | ⟨left, right⟩
      · rfl
      · simp only [Duration.ofValue, left, right]
        rfl
    | _ => cases h
  | string s =>
    cases w with
    | string t => rw [show s = t from eq_of_beq h]
    | _ => cases h
  | null | bool | list | map => cases w <;> first | rfl | cases h

theorem listEquals_strings (ss : List String) :
    listEquals (ss.map .string) (ss.map .string) = true := by
  induction ss with
  | nil => rfl
  | cons s ss ih => exact Bool.and_eq_true_iff.2 ⟨beq_self_eq_true s, ih⟩

theorem entriesEqual_strings (d : Dict String) :
    entriesEqual (d.mapValues .string) (d.mapValues .string) = true := by
  induction d with
  | nil => rfl
  | cons e d ih =>
    exact Bool.and_eq_true_iff.2
      ⟨Bool.and_eq_true_iff.2 ⟨beq_self_eq_true e.1, beq_self_eq_true e.2⟩, ih⟩

theorem entriesEqual_append {d' e' : Dict Value} (h : entriesEqual d e = true)
    (h' : entriesEqual d' e' = true) : entriesEqual (d ++ d') (e ++ e') = true := by
  induction d generalizing e with
  | nil =>
    cases e with
    | nil => exact h'
    | cons => cases h
  | cons x d ih =>
    cases e with
    | nil => cases h
    | cons y e =>
      obtain ⟨first, rest⟩ := Bool.and_eq_true_iff.1 h
      exact Bool.and_eq_true_iff.2 ⟨first, ih rest⟩

theorem entriesEqual_insert (key : String) (same : v.equals w = true)
    (h : entriesEqual d e = true) : entriesEqual (d.insert key v) (e.insert key w) = true := by
  induction d generalizing e with
  | nil =>
    cases e with
    | nil => simp [Dict.insert, entriesEqual, same]
    | cons => cases h
  | cons x d ih =>
    cases e with
    | nil => cases h
    | cons y e =>
      obtain ⟨k, a⟩ := x
      obtain ⟨l, b⟩ := y
      simp only [entriesEqual, Bool.and_eq_true, beq_iff_eq] at h
      obtain ⟨⟨rfl, here⟩, rest⟩ := h
      unfold Dict.insert
      split
      · simp [entriesEqual, same, here, rest]
      · split
        · simp [entriesEqual, same, rest]
        · simp [entriesEqual, here, ih rest]

theorem entriesEqual_ofEntries (h : entriesEqual d e = true) :
    entriesEqual (Dict.ofEntries d) (Dict.ofEntries e) = true := by
  suffices grown : ∀ d' e' : Dict Value, entriesEqual d' e' = true →
      entriesEqual (d.foldl (fun d' x => Dict.insert d' x.1 x.2) d')
        (e.foldl (fun e' x => Dict.insert e' x.1 x.2) e') = true from grown [] [] rfl
  induction d generalizing e with
  | nil =>
    cases e with
    | nil => exact fun _ _ h => h
    | cons => cases h
  | cons x d ih =>
    cases e with
    | nil => cases h
    | cons y e =>
      obtain ⟨k, a⟩ := x
      obtain ⟨l, b⟩ := y
      simp only [entriesEqual, Bool.and_eq_true, beq_iff_eq] at h
      obtain ⟨⟨rfl, here⟩, rest⟩ := h
      exact fun d' e' h => ih rest _ _ (entriesEqual_insert k here h)

end Value

namespace AttributeType
variable {t : AttributeType} {c d : t.Data}

/-- Whether data of a type is equal only to itself. Values are not: they may hold zeros of both
signs. -/
def isPlain : AttributeType → Bool
  | .text | .flag | .integer | .textList | .textMap => true
  | .list | .map | .any | .duration => false

theorem eq_of_beq (plain : t.isPlain = true) (h : (c == d) = true) : c = d := by
  cases t with
  | text => exact LawfulBEq.eq_of_beq (α := String) h
  | flag => exact LawfulBEq.eq_of_beq (α := Bool) h
  | integer => exact LawfulBEq.eq_of_beq (α := Int) h
  | textList => exact LawfulBEq.eq_of_beq (α := List String) h
  | textMap => exact LawfulBEq.eq_of_beq (α := Dict String) h
  | list | map | any | duration => cases plain

theorem isNull_toValue (plain : t.isPlain = true) : (t.toValue d).isNull = false := by
  cases t <;> first | rfl | cases plain

theorem equals_toValue (h : (c == d) = true) : (t.toValue c).equals (t.toValue d) = true := by
  cases t with
  | text =>
    obtain rfl : c = d := eq_of_beq rfl h
    exact beq_self_eq_true (α := String) c
  | flag =>
    obtain rfl : c = d := eq_of_beq rfl h
    exact beq_self_eq_true (α := Bool) c
  | integer =>
    obtain rfl : c = d := eq_of_beq rfl h
    exact Number.equals_self_ofInt c
  | textList =>
    obtain rfl : c = d := eq_of_beq rfl h
    exact Value.listEquals_strings c
  | textMap =>
    obtain rfl : c = d := eq_of_beq rfl h
    exact Value.entriesEqual_strings c
  | list => exact (Value.beq_list c d).symm.trans h
  | map => exact (Value.beq_entries c d).symm.trans h
  | any | duration => exact h

end AttributeType

namespace Field
variable {P : Type} {fields : List (Field P)} {f : Field P} {p q : P} {n : String}

theorem beq_of_agree (h : agree fields p q = true) (hf : ofName? fields n = some f) :
    (f.get p == f.get q) = true :=
  List.all_eq_true.1 h f (mem_of_ofName? hf)

theorem get_eq_of_beq (plain : f.type.isPlain = true) (h : (f.get p == f.get q) = true) :
    f.get p = f.get q := by
  have same := map_eq_of_beq (g := id) (fun _ _ => AttributeType.eq_of_beq plain) h
  simpa only [Option.map_id, id] using same

theorem isSome_of_agree (h : agree fields p q = true) (hf : ofName? fields n = some f) :
    (f.get p).isSome = (f.get q).isSome := by
  have same := map_eq_of_beq (g := fun _ => ()) (fun _ _ _ => rfl) (beq_of_agree h hf)
  have set := congrArg Option.isSome same
  rwa [Option.isSome_map, Option.isSome_map] at set

theorem entriesEqual_values (h : agree fields p q = true) :
    Value.entriesEqual (values fields p) (values fields q) = true := by
  induction fields with
  | nil => rfl
  | cons f fs ih =>
    simp only [agree, List.all_cons, Bool.and_eq_true] at h
    obtain ⟨same, h⟩ := h
    simp only [values, List.filterMap_cons] at ih ⊢
    cases hp : f.get p <;> cases hq : f.get q <;> rw [hp, hq] at same
    · exact ih h
    · cases same
    · cases same
    · exact Bool.and_eq_true_iff.2
        ⟨Bool.and_eq_true_iff.2 ⟨beq_self_eq_true f.name, AttributeType.equals_toValue same⟩, ih h⟩

theorem agree_self (plain : ∀ f ∈ fields, f.type.isPlain = true) (p : P) :
    agree fields p p = true := by
  refine List.all_eq_true.2 fun f hf => ?_
  have same := plain f hf
  obtain ⟨name, type, get, put⟩ := f
  cases type with
  | text => exact beq_self_eq_true (α := Option String) (get p)
  | flag => exact beq_self_eq_true (α := Option Bool) (get p)
  | integer => exact beq_self_eq_true (α := Option Int) (get p)
  | textList => exact beq_self_eq_true (α := Option (List String)) (get p)
  | textMap => exact beq_self_eq_true (α := Option (Dict String)) (get p)
  | list | map | any | duration => cases same

end Field

/-- Payloads that a run cannot tell apart. -/
structure Payload.Alike {P : Type} [Payload P] (p q : P) : Prop where
  inputs : Value.entriesEqual (Payload.inputs p) (Payload.inputs q) = true
  missing? : Payload.missing? p = Payload.missing? q
  check (location : Location) : Payload.check p location = Payload.check q location

section
open PipelineResolution.Field

theorem BasicAuth.equals_inputs (a : BasicAuth) :
    (Value.ofEntries (values fields a)).equals (Value.ofEntries (values fields a)) = true :=
  Value.entriesEqual_ofEntries (entriesEqual_values (agree_self (by decide) a))

theorem InputOption.equals_toValue (o : InputOption) : o.toValue.equals o.toValue = true := by
  refine Value.entriesEqual_ofEntries (Bool.and_eq_true_iff.2 ⟨?_, ?_⟩)
  · exact Bool.and_eq_true_iff.2 ⟨rfl, beq_self_eq_true o.value⟩
  · exact entriesEqual_values (agree_self (by decide) o)

theorem HttpRequest.alike {p q : HttpRequest} (h : (p == q) = true) : Payload.Alike p q := by
  rw [beq_eq, Bool.and_eq_true] at h
  obtain ⟨h, auth⟩ := h
  have auth : p.auth = q.auth := eq_of_beq auth
  have method : p.method = q.method := get_eq_of_beq rfl (beq_of_agree h (n := "method") rfl)
  have timeout : p.timeout = q.timeout :=
    get_eq_of_beq rfl (beq_of_agree h (n := "request_timeout_ms") rfl)
  constructor
  · refine Value.entriesEqual_ofEntries (Value.entriesEqual_append
      (Value.entriesEqual_append (entriesEqual_values h) ?_) ?_)
    · rw [effectiveMethod, effectiveMethod, method]
      simp [Value.entriesEqual, Value.equals]
    · rw [auth]
      cases q.auth with
      | none => rfl
      | some a => simp [Value.entriesEqual, BasicAuth.equals_inputs]
  · have url : p.url.isSome = q.url.isSome := isSome_of_agree h (n := "url") rfl
    simp only [Payload.missing?, url]
  · intro l
    simp only [Payload.check, check, effectiveMethod, method, timeout]

theorem InputRequest.alike {p q : InputRequest} (h : (p == q) = true) : Payload.Alike p q := by
  rw [beq_eq, Bool.and_eq_true] at h
  obtain ⟨h, options⟩ := h
  have options : p.options = q.options := eq_of_beq options
  have type : p.type = q.type := get_eq_of_beq rfl (beq_of_agree h (n := "type") rfl)
  constructor
  · refine Value.entriesEqual_ofEntries (Value.entriesEqual_append (entriesEqual_values h) ?_)
    rw [options]
    split
    · rfl
    · have listed (os : List InputOption) :
          Value.listEquals (os.map InputOption.toValue) (os.map InputOption.toValue) = true := by
        induction os with
        | nil => rfl
        | cons o os ih => exact Bool.and_eq_true_iff.2 ⟨InputOption.equals_toValue o, ih⟩
      simp [Value.entriesEqual, Value.equals, listed]
  · simp only [Payload.missing?, type]
  · intro l
    simp only [Payload.check, check, options, type]

/-- Where the inputs are the values of the fields, only the rules of the kind are left to look at. -/
theorem Payload.Alike.ofAgree {P : Type} [Payload P] {p q : P} (h : agree Payload.fields p q = true)
    (listed : ∀ r : P, Payload.inputs r = Dict.ofEntries (values Payload.fields r))
    (missing? : Payload.missing? p = Payload.missing? q)
    (check : ∀ l, Payload.check p l = Payload.check q l) : Payload.Alike p q where
  inputs := by
    rw [listed, listed]
    exact Value.entriesEqual_ofEntries (entriesEqual_values h)
  missing? := missing?
  check := check

theorem Email.alike {p q : Email} (h : agree Payload.fields p q = true) : Payload.Alike p q := by
  have recipients : p.recipients = q.recipients :=
    get_eq_of_beq rfl (beq_of_agree h (n := "to") rfl)
  have host : p.host = q.host := get_eq_of_beq rfl (beq_of_agree h (n := "host") rfl)
  have port : p.port = q.port := get_eq_of_beq rfl (beq_of_agree h (n := "port") rfl)
  refine .ofAgree h (fun _ => rfl) ?_ fun l => ?_
  · simp only [Payload.missing?, recipients, host]
  · simp only [Payload.check, check, recipients, port]

theorem SqlQuery.alike {p q : SqlQuery} (h : agree Payload.fields p q = true) :
    Payload.Alike p q := by
  have sql : p.sql = q.sql := get_eq_of_beq rfl (beq_of_agree h (n := "sql") rfl)
  have database : p.database = q.database :=
    get_eq_of_beq rfl (beq_of_agree h (n := "database") rfl)
  refine .ofAgree h (fun _ => rfl) ?_ fun l => ?_
  · simp only [Payload.missing?, sql, database]
  · simp only [Payload.check, sql]

theorem Container.alike {p q : Container} (h : agree Payload.fields p q = true) :
    Payload.Alike p q := by
  have image : p.image = q.image := get_eq_of_beq rfl (beq_of_agree h (n := "image") rfl)
  have source : p.source = q.source := get_eq_of_beq rfl (beq_of_agree h (n := "source") rfl)
  have swappiness : p.memorySwappiness = q.memorySwappiness :=
    get_eq_of_beq rfl (beq_of_agree h (n := "memory_swappiness") rfl)
  refine .ofAgree h (fun _ => rfl) ?_ fun l => ?_
  · simp only [Payload.missing?, image, source]
  · simp only [Payload.check, check, image, source, swappiness]

/-- Equal values name the same pipeline. -/
theorem PipelineCall.alike {p q : PipelineCall} (h : agree Payload.fields p q = true) :
    Payload.Alike p q := by
  have same : (p.pipeline == q.pipeline) = true := beq_of_agree h (n := "pipeline") rfl
  refine .ofAgree h (fun _ => rfl) ?_ fun l => ?_
  · have isSome : p.pipeline.isSome = q.pipeline.isSome := isSome_of_agree h (n := "pipeline") rfl
    simp only [Payload.missing?, isSome]
  · have named := map_eq_of_beq (g := Value.pipelineName?)
      (fun _ _ => Value.pipelineName?_of_equals) same
    have rule (r : PipelineCall) : r.pipeline.any (·.pipelineName?.isNone) =
        (r.pipeline.map (·.pipelineName?)).any (·.isNone) := by
      rcases r.pipeline with _ | v <;> rfl
    simp only [Payload.check, rule, named]

/-- Equal values are the same duration. -/
theorem Sleep.alike {p q : Sleep} (h : agree Payload.fields p q = true) : Payload.Alike p q := by
  have same : (p.duration == q.duration) = true := beq_of_agree h (n := "duration") rfl
  refine .ofAgree h (fun _ => rfl) ?_ fun l => ?_
  · have isSome : p.duration.isSome = q.duration.isSome := isSome_of_agree h (n := "duration") rfl
    simp only [Payload.missing?, isSome]
  · have read := map_eq_of_beq (g := Duration.ofValue)
      (fun _ _ => Value.duration_of_equals) same
    simp only [Payload.check, read]

theorem Transform.alike {p q : Transform} (h : agree Payload.fields p q = true) :
    Payload.Alike p q := by
  have same : (p.value == q.value) = true := beq_of_agree h (n := "value") rfl
  refine ⟨?_, rfl, fun _ => rfl⟩
  have equal : (p.value.getD .null).equals (q.value.getD .null) = true := by
    revert same
    rcases p.value with _ | v <;> rcases q.value with _ | w
    · exact fun _ => rfl
    · exact nofun
    · exact nofun
    · exact id
  exact Bool.and_eq_true_iff.2 ⟨Bool.and_eq_true_iff.2 ⟨rfl, equal⟩, rfl⟩

theorem FunctionCall.alike {p q : FunctionCall} (h : agree Payload.fields p q = true) :
    Payload.Alike p q := by
  have source : p.source.isSome = q.source.isSome := isSome_of_agree h (n := "source") rfl
  refine .ofAgree h (fun _ => rfl) ?_ fun _ => rfl
  simp only [Payload.missing?, source]

theorem Message.alike {p q : Message} (h : agree Payload.fields p q = true) :
    Payload.Alike p q := by
  have text : p.text.isSome = q.text.isSome := isSome_of_agree h (n := "text") rfl
  refine .ofAgree h (fun _ => rfl) ?_ fun _ => rfl
  simp only [Payload.missing?, text]

end

/-- Equal settings are alike for a run. -/
theorem StepKind.alike {kind : StepKind} {p q : kind.Settings} (h : (p == q) = true) :
    Payload.Alike p q := by
  have agree (flat : kind.Flat) : Field.agree Payload.fields p q = true :=
    (beq_eq flat p q).symm.trans h
  cases kind with
  | http => exact HttpRequest.alike h
  | input => exact InputRequest.alike h
  | sleep => exact Sleep.alike (agree ⟨nofun, nofun⟩)
  | email => exact Email.alike (agree ⟨nofun, nofun⟩)
  | transform => exact Transform.alike (agree ⟨nofun, nofun⟩)
  | query => exact SqlQuery.alike (agree ⟨nofun, nofun⟩)
  | pipeline => exact PipelineCall.alike (agree ⟨nofun, nofun⟩)
  | function => exact FunctionCall.alike (agree ⟨nofun, nofun⟩)
  | container => exact Container.alike (agree ⟨nofun, nofun⟩)
  | message => exact Message.alike (agree ⟨nofun, nofun⟩)

end PipelineResolution
