import PipelineResolution.Proofs.Resolution.Dependencies
import PipelineResolution.Proofs.Step.Moves

/-!
# The options of an input

The value of an option and the name of an attribute are joined by a dot and cut apart again at the
last one. For the names of fields, which have no dots, the cut undoes the join whatever the value is,
so each block reaches its own option. The name that ends in a dot and that of a field is taken as
well, and is cut in another place: it reaches the option of another value.
-/
namespace PipelineResolution

theorem Text.cutLast_append {before after : String} (absent : '.' ∉ after.toList) :
    cutLast '.' (before ++ "." ++ after) = some (before, after) := by
  have reversed : (before ++ "." ++ after).toList.reverse =
      after.toList.reverse ++ '.' :: before.toList.reverse := by
    simp [String.toList_append]
  rw [cutLast, reversed, cutChars_of_notMem (by simpa using absent)]
  simp

theorem Field.mem_names {P : Type} {fields : List (Field P)} {name : String} :
    name ∈ names fields ↔ (ofName? fields name).isSome = true := by
  simp only [names, ofName?, List.mem_map, List.find?_isSome, beq_iff_eq]

namespace InputOption

/-- A name that ends in a dot and that of a field. -/
def Dotted (name : String) : Prop :=
  ∃ field ∈ Field.names fields, '.' :: field.toList <:+ name.toList

instance (name : String) : Decidable (Dotted name) :=
  inferInstanceAs (Decidable (∃ field ∈ Field.names fields, '.' :: field.toList <:+ name.toList))

theorem plain_of_mem_names {field : String} (h : field ∈ Field.names fields) :
    '.' ∉ field.toList := by
  revert field
  decide

end InputOption

namespace InputRequest
variable {x y name field : String}

/-- A field of an option is found under the name that a block of the option gives it. -/
theorem optionName?_join (x : String) (h : field ∈ Field.names InputOption.fields) :
    optionName? ("option." ++ (x ++ "." ++ field)) = some (x, field) := by
  have cut : Text.cutLast '.' (x ++ "." ++ field) = some (x, field) :=
    Text.cutLast_append (InputOption.plain_of_mem_names h)
  simp only [optionName?, Text.dropStart?_self, Option.bind_eq_bind, Option.bind_some, cut]
  exact Option.filter_eq_some_iff.2 ⟨rfl, List.contains_iff_mem.2 h⟩

/-- In a block of an option, the names of fields are taken, and those that end like one of another
option. -/
theorem mem_names_or_dotted (h : optionName? ("option." ++ (x ++ "." ++ name)) = some (y, field)) :
    name ∈ Field.names InputOption.fields ∨ InputOption.Dotted name := by
  obtain ⟨cut, known⟩ := Option.filter_eq_some_iff.1 h
  rw [Text.dropStart?_self] at cut
  have known : field ∈ Field.names InputOption.fields := List.contains_iff_mem.1 known
  have joined : x.toList ++ '.' :: name.toList = y.toList ++ '.' :: field.toList := by
    simpa [String.toList_append] using congrArg String.toList (Text.eq_of_cutLast cut)
  have whole : '.' :: name.toList <:+ x.toList ++ '.' :: name.toList := List.suffix_append _ _
  have last : '.' :: field.toList <:+ x.toList ++ '.' :: name.toList :=
    joined ▸ List.suffix_append _ _
  rcases List.suffix_or_suffix_of_suffix last whole with inside | outside
  · rcases List.suffix_cons_iff.1 inside with same | inside
    · obtain rfl : field = name := String.toList_inj.1 (List.cons.inj same).2
      exact .inl known
    · exact .inr ⟨field, known, inside⟩
  · rcases List.suffix_cons_iff.1 outside with same | outside
    · obtain rfl : name = field := String.toList_inj.1 (List.cons.inj same).2
      exact .inl known
    · exact absurd (outside.subset List.mem_cons_self) (InputOption.plain_of_mem_names known)

/-- A name that ends like that of a field reaches the option of another value. -/
theorem optionName?_of_dotted (x : String) (dotted : InputOption.Dotted name) :
    ∃ y field, y ≠ x ∧ optionName? ("option." ++ (x ++ "." ++ name)) = some (y, field) := by
  obtain ⟨field, known, start, split⟩ := dotted
  have joined : x ++ "." ++ name = x ++ "." ++ String.ofList start ++ "." ++ field :=
    String.toList_inj.1 (by simp [String.toList_append, ← split])
  refine ⟨x ++ "." ++ String.ofList start, field, fun same => ?_, ?_⟩
  · have length := congrArg (List.length ∘ String.toList) same
    simp [String.toList_append] at length
  · rw [joined]
    exact optionName?_join _ known

theorem values_putOption (o : InputOption) (os : List InputOption) :
    (putOption o os).map (·.value) = DependencySet.push (os.map (·.value)) o.value := by
  induction os with
  | nil => rfl
  | cons u os ih =>
    unfold putOption
    by_cases same : u.value = o.value
    · simp [DependencySet.push, same]
    · simp only [beq_iff_eq, same, if_false, List.map_cons, ih]
      by_cases mem : o.value ∈ os.map (·.value)
      · simp [DependencySet.push, mem]
      · simp [DependencySet.push, mem, Ne.symm same]

end InputRequest

/-- What an attribute stores in a field: the value that it is known to have, if that is of the type
of the field. -/
def Field.stored? {P : Type} (ctx : ResolutionContext) (f : Field P) (a : Attribute) :
    Option f.type.Data :=
  if a.name = f.name then
    match (a.resolve ctx).outcome with
    | .resolved v => (f.type.convert a.name v).toOption
    | .deferred | .failed _ => none
  else none

namespace InputOption
variable {ctx : ResolutionContext} {o : InputOption} {a : Attribute} {f : Field InputOption}

/-- The option with what an attribute of its block stores. -/
def take (ctx : ResolutionContext) (o : InputOption) (a : Attribute) : InputOption :=
  match Field.ofName? fields a.name with
  | some f => ((f.stored? ctx a).map (f.put · o)).getD o
  | none => o

@[simp] theorem value_take (o : InputOption) (a : Attribute) : (o.take ctx a).value = o.value := by
  unfold take
  cases hf : Field.ofName? fields a.name with
  | none => rfl
  | some f =>
    dsimp only
    cases f.stored? ctx a with
    | none => rfl
    | some d => exact value_put f (Field.mem_of_ofName? hf) d o

@[simp] theorem value_foldl_take (as : List Attribute) (o : InputOption) :
    (as.foldl (take ctx) o).value = o.value := by
  induction as generalizing o with
  | nil => rfl
  | cons a as ih => rw [List.foldl_cons, ih, value_take]

theorem get_take (hf : f ∈ fields) (a : Attribute) (o : InputOption) :
    f.get (o.take ctx a) = (f.stored? ctx a).or (f.get o) := by
  by_cases named : a.name = f.name
  · have found : Field.ofName? fields a.name = some f := named ▸ ofName?_name f hf
    simp only [take, found]
    cases f.stored? ctx a with
    | none => rfl
    | some d => exact (InputRequest.independent_option.lawful f hf).get_put d o
  · have other : f.stored? ctx a = none := if_neg named
    rw [other, Option.none_or, take]
    cases hg : Field.ofName? fields a.name with
    | none => rfl
    | some g =>
      dsimp only
      cases g.stored? ctx a with
      | none => rfl
      | some d =>
        have apart := InputRequest.independent_option.apart_of_ne (Ne.symm named) (ofName?_name f hf) hg
        exact apart.get_left d o

/-- In each field the last value that is stored counts. -/
theorem get_foldl_take (hf : f ∈ fields) (as : List Attribute) (o : InputOption) :
    f.get (as.foldl (take ctx) o) = (as.filterMap (f.stored? ctx)).getLast?.or (f.get o) := by
  induction as generalizing o with
  | nil => rfl
  | cons a as ih =>
    rw [List.foldl_cons, ih, get_take hf, ← Option.or_assoc]
    congr 1
    cases hs : f.stored? ctx a with
    | none => rw [List.filterMap_cons_none hs, Option.or_none]
    | some d => rw [List.filterMap_cons_some hs, List.getLast?_cons, Option.or_some]

end InputOption

/-- What is reported on an attribute in the block of an option. -/
def Attribute.optionReports (ctx : ResolutionContext) (x : String) (a : Attribute) : Diagnostics :=
  match Field.ofName? InputOption.fields a.name with
  | some f =>
    match (a.resolve ctx).outcome with
    | .resolved v =>
      match f.type.convert ("option." ++ (x ++ "." ++ a.name)) v with
      | .ok _ => []
      | .error m => [m.toDiagnostic a.location]
    | .deferred => []
    | .failed ds => ds
  | none => [Block.unsupportedAttribute a "option"]

namespace Block

/-- The value of the option that a block sets. -/
def optionValue? (b : Block) : Option String :=
  match b.type, b.labels with
  | "option", [x] => some x
  | _, _ => none

/-- What is reported on the block of an option. -/
def optionReports (ctx : ResolutionContext) (b : Block) : Diagnostics :=
  b.attributes.flatMap (Attribute.optionReports ctx (b.optionValue?.getD ""))
    ++ b.blocks.map (·.unsupportedBlock "option")

/-- The values of the options that some blocks set. -/
def optionLabels (bs : List Block) : List String := bs.filterMap optionValue?

/-- The attributes of all blocks of one option. -/
def optionAttributes (bs : List Block) (x : String) : List Attribute :=
  (bs.filter (·.optionValue? == some x)).flatMap (·.attributes)

theorem optionValue?_eq_some {b : Block} {x : String} :
    b.optionValue? = some x ↔ b.type = "option" ∧ b.labels = [x] := by
  unfold optionValue?
  constructor
  · intro h
    split at h
    · rename_i type labels
      cases h
      exact ⟨type, labels⟩
    · cases h
  · rintro ⟨type, labels⟩
    simp only [type, labels]

theorem innerName_option {b : Block} {x : String} (own : b.optionValue? = some x) (name : String) :
    b.innerName name = "option." ++ (x ++ "." ++ name) := by
  obtain ⟨type, labels⟩ := optionValue?_eq_some.1 own
  have joined : ".".intercalate ["option", x] = "option" ++ "." ++ x := rfl
  rw [innerName, type, labels, joined]
  simp only [String.append_assoc]
  rfl

end Block

namespace InputRequest
variable {f : Field InputOption} {name x y : String} {p : InputRequest} {o u : InputOption}

/-- The input with an option in the place of that of the same value. -/
def withOption (p : InputRequest) (o : InputOption) : InputRequest :=
  { p with options := putOption o p.options }

theorem option?_withOption (p : InputRequest) (o : InputOption) :
    (p.withOption o).option? o.value = some o := find?_putOption o p.options

theorem option?_withOption_of_ne (ne : o.value ≠ x) : (p.withOption o).option? x = p.option? x :=
  find?_putOption_of_ne ne

theorem withOption_withOption (same : o.value = u.value) :
    (p.withOption o).withOption u = p.withOption u :=
  congrArg (fun os => ({ p with options := os } : InputRequest)) (putOption_putOption same)

theorem withOption_of_option? (h : p.option? x = some o) : p.withOption o = p :=
  congrArg (fun os => ({ p with options := os } : InputRequest)) (putOption_of_find? h)

theorem value_of_option? (h : p.option? x = some o) : o.value = x := by
  simpa using List.find?_some h

@[simp] theorem value_optionOf (p : InputRequest) (x : String) : (p.optionOf x).value = x :=
  (lawful_optionSlot x).getD p

theorem set_join (x : String) (hf : Field.ofName? InputOption.fields name = some f) (v : Value)
    (p : InputRequest) :
    StepSpec.set ⟨.input, p⟩ ("option." ++ (x ++ "." ++ name)) v =
      (f.type.convert ("option." ++ (x ++ "." ++ name)) v).map fun d =>
        ⟨.input, p.withOption (f.put d (p.optionOf x))⟩ := by
  have known : name ∈ Field.names InputOption.fields := Field.mem_names.2 (by rw [hf]; rfl)
  change (Payload.set (P := InputRequest) _ v p).map _ = _
  dsimp only [Payload.set]
  rw [optionName?_join x known]
  dsimp only
  rw [Field.set_eq, hf]
  dsimp only
  cases f.type.convert ("option." ++ (x ++ "." ++ name)) v <;> rfl

/-- In the block of an option the names of fields are taken, and those that end like one. -/
theorem accepts_join (x name : String) :
    StepKind.input.accepts ("option." ++ (x ++ "." ++ name)) = true ↔
      name ∈ Field.names InputOption.fields ∨ InputOption.Dotted name := by
  -- Neither the name of a field of the input nor that in another block starts like this one.
  have foreign : (Field.names (fields : List (Field InputRequest))).contains
      ("option." ++ (x ++ "." ++ name)) = false := by
    have start : ∀ field ∈ Field.names (fields : List (Field InputRequest)),
        Text.dropStart? "option." field = none := by decide
    refine Bool.eq_false_iff.2 fun h => ?_
    have none := start _ (List.contains_iff_mem.1 h)
    rw [Text.dropStart?_self] at none
    cases none
  have other : isNotifyName ("option." ++ (x ++ "." ++ name)) = false := by
    rw [isNotifyName, Text.dropStart?, String.toList_append]
    rfl
  change (_ || _ || (optionName? _).isSome) = true ↔ _
  rw [foreign, other, Bool.false_or, Bool.false_or, Option.isSome_iff_exists]
  constructor
  · rintro ⟨⟨y, field⟩, h⟩
    exact mem_names_or_dotted h
  · rintro (known | dotted)
    · exact ⟨_, optionName?_join x known⟩
    · obtain ⟨y, field, -, h⟩ := optionName?_of_dotted x dotted
      exact ⟨_, h⟩

/-- The input after the block of an option. -/
def offer (ctx : ResolutionContext) (p : InputRequest) (b : Block) : InputRequest :=
  match b.optionValue? with
  | some x => p.withOption (b.attributes.foldl (InputOption.take ctx) (p.optionOf x))
  | none => p

theorem offer_eq {ctx : ResolutionContext} {b : Block} (own : b.optionValue? = some x)
    (p : InputRequest) :
    p.offer ctx b = p.withOption (b.attributes.foldl (InputOption.take ctx) (p.optionOf x)) := by
  rw [offer, own]

end InputRequest

namespace Step
variable {s : Step} {ctx : ResolutionContext} {b : Block} {p : InputRequest} {o : InputOption}
  {x : String}

/-- An attribute in the block of a declared option is stored in it, or else reported. -/
theorem setInner_option (ctx : ResolutionContext) (own : b.optionValue? = some x)
    (input : s.spec = ⟨.input, p⟩) (declared : p.option? x = some o) {a : Attribute}
    (plain : ¬InputOption.Dotted a.name) :
    (setInner ctx b s a).1.spec = ⟨.input, p.withOption (o.take ctx a)⟩ ∧
      (setInner ctx b s a).2 = a.optionReports ctx x := by
  obtain ⟨type, -⟩ := Block.optionValue?_eq_some.1 own
  have kept : s.spec = ⟨.input, p.withOption o⟩ :=
    input.trans (congrArg (StepSpec.mk .input) (InputRequest.withOption_of_option? declared).symm)
  have opened : p.optionOf x = o := by rw [InputRequest.optionOf, declared, Option.getD_some]
  have kind : s.kind = .input := congrArg StepSpec.kind input
  have known : StepKind.input.accepts ("option." ++ (x ++ "." ++ a.name)) =
      (Field.ofName? InputOption.fields a.name).isSome := by
    rw [Bool.eq_iff_iff, InputRequest.accepts_join, or_iff_left plain]
    exact Field.mem_names
  rw [setInner_eq, Block.innerName_option own, kind, known]
  unfold Attribute.optionReports InputOption.take
  cases hf : Field.ofName? InputOption.fields a.name with
  | none =>
    rw [type]
    exact ⟨kept, rfl⟩
  | some f =>
    have named : a.name = f.name := (Field.name_of_ofName? hf).symm
    simp only [Option.isSome_some, if_true, setOfKind, Field.stored?, named, depending]
    cases ho : (a.resolve ctx).outcome with
    | resolved v =>
      dsimp only
      rw [input, ← named, InputRequest.set_join x hf, opened,
        AttributeType.toOption_convert f.type a.name ("option." ++ (x ++ "." ++ a.name))]
      cases f.type.convert ("option." ++ (x ++ "." ++ a.name)) v with
      | ok d => exact ⟨rfl, rfl⟩
      | error m => exact ⟨input.symm.trans kept, rfl⟩
    | deferred => exact ⟨kept, rfl⟩
    | failed ds => exact ⟨kept, rfl⟩

theorem gather_setInner_option (ctx : ResolutionContext) (own : b.optionValue? = some x)
    {as : List Attribute} (plain : ∀ a ∈ as, ¬InputOption.Dotted a.name)
    (input : s.spec = ⟨.input, p⟩) (declared : p.option? x = some o) :
    (Diagnostics.gather (setInner ctx b) s as).1.spec =
        ⟨.input, p.withOption (as.foldl (InputOption.take ctx) o)⟩ ∧
      (Diagnostics.gather (setInner ctx b) s as).2 =
        as.flatMap (Attribute.optionReports ctx x) := by
  induction as generalizing s p o with
  | nil =>
    exact ⟨input.trans (congrArg (StepSpec.mk .input)
      (InputRequest.withOption_of_option? declared).symm), rfl⟩
  | cons a as ih =>
    obtain ⟨first, plain⟩ := List.forall_mem_cons.1 plain
    obtain ⟨stored, reported⟩ := setInner_option ctx own input declared first
    have still : (p.withOption (o.take ctx a)).option? x = some (o.take ctx a) := by
      have value : (o.take ctx a).value = x :=
        (InputOption.value_take o a).trans (InputRequest.value_of_option? declared)
      simpa only [value] using p.option?_withOption (o.take ctx a)
    obtain ⟨rest, reports⟩ := ih plain stored still
    refine ⟨rest.trans (congrArg (StepSpec.mk .input) ?_), congrArg₂ (· ++ ·) reported reports⟩
    exact InputRequest.withOption_withOption (by simp)

/-- The block of an option sets that option, which is declared if it was not. -/
theorem setBlock_option (ctx : ResolutionContext) (own : b.optionValue? = some x)
    (plain : ∀ a ∈ b.attributes, ¬InputOption.Dotted a.name) (input : s.spec = ⟨.input, p⟩) :
    (s.setBlock b ctx).1.spec = ⟨.input, p.offer ctx b⟩ ∧
      (s.setBlock b ctx).2 = b.optionReports ctx := by
  obtain ⟨type, labels⟩ := Block.optionValue?_eq_some.1 own
  have kind : s.kind = .input := congrArg StepSpec.kind input
  have owned : s.setBlock b ctx = s.setKindBlock b ctx := by
    unfold setBlock
    rw [kind, type]
    rfl
  have opened : (s.opened b).spec = ⟨.input, p.withOption (p.optionOf x)⟩ := by
    rw [Step.opened, input, type, labels]
    rfl
  have declared : (p.withOption (p.optionOf x)).option? x = some (p.optionOf x) := by
    simpa using p.option?_withOption (p.optionOf x)
  obtain ⟨stored, reports⟩ := gather_setInner_option ctx own plain opened declared
  rw [owned, setKindBlock_eq]
  refine ⟨stored.trans (congrArg (StepSpec.mk .input) ?_), ?_⟩
  · rw [InputRequest.offer_eq own]
    exact InputRequest.withOption_withOption (by simp)
  · dsimp only
    rw [reports, type, Block.optionReports, own, Option.getD_some]

theorem gather_setBlockOnce_option (ctx : ResolutionContext) {bs : List Block}
    (own : ∀ b ∈ bs, b.optionValue?.isSome)
    (plain : ∀ b ∈ bs, ∀ a ∈ b.attributes, ¬InputOption.Dotted a.name)
    (input : s.spec = ⟨.input, p⟩) :
    (Diagnostics.gather (setBlockOnce ctx) (s, []) bs).1.1.spec =
        ⟨.input, bs.foldl (InputRequest.offer ctx) p⟩ ∧
      (Diagnostics.gather (setBlockOnce ctx) (s, []) bs).2 =
        bs.flatMap (Block.optionReports ctx) := by
  induction bs generalizing s p with
  | nil => exact ⟨input, rfl⟩
  | cons b bs ih =>
    obtain ⟨owned, own⟩ := List.forall_mem_cons.1 own
    obtain ⟨first, plain⟩ := List.forall_mem_cons.1 plain
    obtain ⟨x, owned⟩ := Option.isSome_iff_exists.1 owned
    obtain ⟨stored, reported⟩ := setBlock_option ctx owned first input
    obtain ⟨rest, reports⟩ := ih own plain stored
    have once : setBlockOnce ctx (s, []) b = (((s.setBlock b ctx).1, []), (s.setBlock b ctx).2) := by
      unfold setBlockOnce
      rw [(Block.optionValue?_eq_some.1 owned).1]
      rfl
    simp only [Diagnostics.gather, once]
    exact ⟨rest, congrArg₂ (· ++ ·) reported reports⟩

end Step

namespace InputRequest
variable {ctx : ResolutionContext} {b : Block} {bs : List Block} {p q : InputRequest} {x y : String}

theorem values_offer (own : b.optionValue? = some x) (p : InputRequest) :
    (p.offer ctx b).options.map (·.value) = DependencySet.push (p.options.map (·.value)) x := by
  rw [offer_eq own]
  refine (values_putOption _ _).trans ?_
  rw [InputOption.value_foldl_take, value_optionOf]

theorem option?_offer (own : b.optionValue? = some x) (p : InputRequest) (y : String) :
    (p.offer ctx b).option? y =
      if x = y then some (b.attributes.foldl (InputOption.take ctx) (p.optionOf x))
      else p.option? y := by
  rw [offer_eq own]
  split
  · rename_i same
    rw [← same]
    simpa using p.option?_withOption (b.attributes.foldl (InputOption.take ctx) (p.optionOf x))
  · rename_i ne
    exact option?_withOption_of_ne (by simpa using ne)

theorem optionOf_offer (own : b.optionValue? = some x) (p : InputRequest) (y : String) :
    (p.offer ctx b).optionOf y = (Block.optionAttributes [b] y).foldl (InputOption.take ctx)
      (p.optionOf y) := by
  rw [optionOf, option?_offer own]
  by_cases same : x = y
  · simp [Block.optionAttributes, own, same]
  · simp [Block.optionAttributes, own, same, optionOf]

theorem values_foldl_offer (own : ∀ b ∈ bs, b.optionValue?.isSome) (p : InputRequest) :
    (bs.foldl (offer ctx) p).options.map (·.value) =
      (Block.optionLabels bs).foldl DependencySet.push (p.options.map (·.value)) := by
  induction bs generalizing p with
  | nil => rfl
  | cons b bs ih =>
    obtain ⟨owned, own⟩ := List.forall_mem_cons.1 own
    obtain ⟨x, owned⟩ := Option.isSome_iff_exists.1 owned
    rw [List.foldl_cons, ih own, values_offer owned, Block.optionLabels, Block.optionLabels,
      List.filterMap_cons_some owned, List.foldl_cons]

theorem optionOf_foldl_offer (own : ∀ b ∈ bs, b.optionValue?.isSome) (p : InputRequest) (y : String) :
    (bs.foldl (offer ctx) p).optionOf y =
      (Block.optionAttributes bs y).foldl (InputOption.take ctx) (p.optionOf y) := by
  induction bs generalizing p with
  | nil => rfl
  | cons b bs ih =>
    obtain ⟨owned, own⟩ := List.forall_mem_cons.1 own
    obtain ⟨x, owned⟩ := Option.isSome_iff_exists.1 owned
    have split : Block.optionAttributes (b :: bs) y =
        Block.optionAttributes [b] y ++ Block.optionAttributes bs y := by
      simp only [Block.optionAttributes, ← List.flatMap_append, ← List.filter_append]
      rfl
    rw [List.foldl_cons, ih own, optionOf_offer owned, split, List.foldl_append]

theorem option?_foldl_offer (own : ∀ b ∈ bs, b.optionValue?.isSome)
    (other : y ∉ Block.optionLabels bs) (p : InputRequest) :
    (bs.foldl (offer ctx) p).option? y = p.option? y := by
  induction bs generalizing p with
  | nil => rfl
  | cons b bs ih =>
    obtain ⟨owned, own⟩ := List.forall_mem_cons.1 own
    obtain ⟨x, owned⟩ := Option.isSome_iff_exists.1 owned
    rw [Block.optionLabels, List.filterMap_cons_some owned, List.mem_cons, not_or] at other
    rw [List.foldl_cons, ih own other.2, option?_offer owned, if_neg (Ne.symm other.1)]

theorem rest_foldl_offer (bs : List Block) (p : InputRequest) :
    bs.foldl (offer ctx) p = { p with options := (bs.foldl (offer ctx) p).options } := by
  induction bs generalizing p with
  | nil => rfl
  | cons b bs ih =>
    rw [List.foldl_cons, ih]
    unfold offer
    split <;> rfl

theorem option?_of_mem (h : x ∈ p.options.map (·.value)) : p.option? x = some (p.optionOf x) := by
  obtain ⟨o, ho, same⟩ := List.mem_map.1 h
  obtain ⟨u, hu⟩ : ∃ u, p.option? x = some u :=
    Option.isSome_iff_exists.1 (List.find?_isSome.2 ⟨o, ho, beq_iff_eq.2 same⟩)
  rw [optionOf, hu, Option.getD_some]

/-- What the blocks of options in a block make of an input: each option that they name is there, in
the order of their first blocks, with what the attributes of its own blocks store in it. -/
structure Offers (p : InputRequest) (ctx : ResolutionContext) (b : Block) (q : InputRequest) : Prop where
  rest : q = { p with options := q.options }
  values : q.options.map (·.value) = p.options.map (·.value) ++
    ((Block.optionLabels b.blocks).filter (!(p.options.map (·.value)).contains ·)).eraseDups
  others : ∀ x ∉ Block.optionLabels b.blocks, q.option? x = p.option? x
  stored : ∀ x ∈ Block.optionLabels b.blocks, ∃ o, q.option? x = some o ∧
    ∀ f ∈ InputOption.fields, f.get o =
      ((Block.optionAttributes b.blocks x).filterMap (f.stored? ctx)).getLast?.or
        (f.get (p.optionOf x))

theorem offers_foldl (own : ∀ o ∈ b.blocks, o.optionValue?.isSome) (p : InputRequest) :
    p.Offers ctx b (b.blocks.foldl (offer ctx) p) where
  rest := rest_foldl_offer b.blocks p
  values := (values_foldl_offer own p).trans (DependencySet.foldl_push _ _)
  others x other := option?_foldl_offer own other p
  stored x named := by
    refine ⟨(b.blocks.foldl (offer ctx) p).optionOf x, option?_of_mem ?_, fun f hf => ?_⟩
    · rw [values_foldl_offer own, DependencySet.mem_foldl_push]
      exact .inr named
    · rw [optionOf_foldl_offer own, InputOption.get_foldl_take hf]

end InputRequest

namespace Step
variable {s : Step} {b : Block} {p : InputRequest}

/-- The blocks of options in the block of an input set their own options, and all attributes that are
not those of an option are reported, unless the name of one ends in a dot and the name of a field. -/
theorem setBlocks_options (input : s.spec = ⟨.input, p⟩)
    (own : ∀ o ∈ b.blocks, o.optionValue?.isSome)
    (plain : ∀ o ∈ b.blocks, ∀ a ∈ o.attributes, ¬InputOption.Dotted a.name)
    (ctx : ResolutionContext) :
    ∃ q, (s.setBlocks b ctx).1.spec = ⟨.input, q⟩ ∧ p.Offers ctx b q ∧
      (s.setBlocks b ctx).2 = b.blocks.flatMap (Block.optionReports ctx) := by
  obtain ⟨stored, reports⟩ := gather_setBlockOnce_option ctx own plain input
  exact ⟨_, stored, InputRequest.offers_foldl own p, reports⟩

/-- A vote on three options, one of them without a text and one of them set in two blocks. -/
def voteBlock : Block where
  type := "step"
  labels := ["input", "vote"]
  attributes := []
  blocks := [
    ⟨"option", ["yes"], [⟨"label", .literal (.string "Aye"), default⟩,
      ⟨"color", .literal (.string "red"), default⟩], [], default, []⟩,
    ⟨"option", [""], [⟨"selected", .literal (.bool true), default⟩], [], default, []⟩,
    ⟨"option", ["v1.2"], [⟨"style", .literal (.list []), default⟩], [], default, []⟩,
    ⟨"option", ["yes"], [⟨"label", .literal (.string "Yes"), default⟩], [], default, []⟩]
  location := default
  diagnostics := []

theorem setBlocks_options_vote :
    ∃ q, ((ofKind .input "vote" "p").setBlocks voteBlock ⟨.empty, {}, .plain, .brief⟩).1.spec =
        ⟨.input, q⟩ ∧
      q.options.map (·.value) = ["yes", "", "v1.2"] ∧
      (q.option? "yes").bind (·.label) = some "Yes" ∧
      ((ofKind .input "vote" "p").setBlocks voteBlock ⟨.empty, {}, .plain, .brief⟩).2.map (·.summary) =
        ["Unsupported attribute", "Incorrect attribute value type"] := by
  obtain ⟨q, stored, offers, reports⟩ := setBlocks_options (s := ofKind .input "vote" "p")
    (b := voteBlock) (p := {}) rfl (by decide) (by decide) ⟨.empty, {}, .plain, .brief⟩
  refine ⟨q, stored, offers.values.trans (by decide), ?_, ?_⟩
  · obtain ⟨o, found, fields⟩ := offers.stored "yes" (by decide)
    rw [found]
    exact (fields _ List.mem_cons_self).trans rfl
  · rw [reports]
    decide

/-- An attribute whose name ends like that of a field. -/
def dottedOption : Block where
  type := "step"
  labels := ["input", "vote"]
  attributes := []
  blocks := [⟨"option", ["yes"], [⟨"x.label", .literal (.string "X"), default⟩], [], default, []⟩]
  location := default
  diagnostics := []

/-- It declares an option of its own and is not reported. -/
theorem setBlocks_options_dotted : ¬∀ (s : Step) (b : Block) (p : InputRequest),
    s.spec = ⟨.input, p⟩ → (∀ o ∈ b.blocks, o.optionValue?.isSome) → ∀ ctx : ResolutionContext,
    ∃ q, (s.setBlocks b ctx).1.spec = ⟨.input, q⟩ ∧ p.Offers ctx b q ∧
      (s.setBlocks b ctx).2 = b.blocks.flatMap (Block.optionReports ctx) := by
  intro claim
  obtain ⟨q, stored, offers, -⟩ := claim (ofKind .input "vote" "p") dottedOption {} rfl (by decide)
    ⟨.empty, {}, .plain, .brief⟩
  have actual :
      ((ofKind .input "vote" "p").setBlocks dottedOption ⟨.empty, {}, .plain, .brief⟩).1.spec =
        ⟨.input, { options := [{ value := "yes" }, { value := "yes.x", label := some "X" }] }⟩ := rfl
  have values : q.options.map (·.value) = ["yes", "yes.x"] := by
    rw [eq_of_heq (StepSpec.mk.inj (stored.symm.trans actual)).2]
    rfl
  exact absurd (values.symm.trans offers.values) (by decide)

end Step
end PipelineResolution
