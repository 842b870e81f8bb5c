import PipelineResolution.Proofs.Step.Addressing

/-!
# The places of each kind of step

Most kinds keep an attribute in the field of its name. A `notify` block shares the fields of the body
around it, the credentials of a request are a record inside, and each choice of an input is a record
in a list, found by its value.
-/
namespace PipelineResolution
open Payload Addressing

theorem StepKind.independent (kind : StepKind) :
    Field.Independent (fields : List (Field kind.Settings)) := by
  constructor
  · cases kind
    all_goals
      repeat refine List.forall_mem_cons.2 ⟨⟨fun _ _ => rfl, fun _ _ _ => rfl⟩, ?_⟩
      exact List.forall_mem_nil _
  · cases kind
    all_goals
      repeat
        refine List.Pairwise.cons ?_ ?_
        · repeat refine List.forall_mem_cons.2 ⟨⟨fun _ _ _ => rfl, fun _ _ => rfl, fun _ _ => rfl⟩, ?_⟩
          exact List.forall_mem_nil _
      exact .nil

/-- A record inside another that may be absent; what is set first is set in a new one. -/
structure Slot (P Q : Type) where
  get? : P → Option Q
  put : Q → P → P
  new : Q

namespace Slot
variable {P Q : Type} {s : Slot P Q} {f g : Field Q} {Own : Q → Prop}

/-- A record that belongs into the slot is found there, until another one is put there. -/
structure Lawful (s : Slot P Q) (Own : Q → Prop) : Prop where
  new : Own s.new
  get {p q} : s.get? p = some q → Own q
  get_put {q} (p) : Own q → s.get? (s.put q p) = some q
  put_put {q r} (p) : Own q → Own r → s.put r (s.put q p) = s.put r p

/-- A field that is unset in a new record and leaves a record in its slot. -/
structure Holds (s : Slot P Q) (Own : Q → Prop) (f : Field Q) : Prop where
  keeps {q} (d) : Own q → Own (f.put d q)
  fresh : f.get s.new = none

/-- A field of the record inside as a field of the record around it. -/
def field (s : Slot P Q) (f : Field Q) : Field P :=
  ⟨f.name, f.type, fun p => (s.get? p).bind f.get,
    fun d p => s.put (f.put d ((s.get? p).getD s.new)) p⟩

namespace Lawful
variable (h : s.Lawful Own) (hf : s.Holds Own f) (hg : s.Holds Own g)
include h

theorem getD (p : P) : Own ((s.get? p).getD s.new) := by
  cases hq : s.get? p with
  | none => exact h.new
  | some q => exact h.get hq

include hf

theorem field (lawful : f.Lawful) : (s.field f).Lawful where
  get_put (d : f.type.Data) p := by
    dsimp only [Slot.field]
    rw [h.get_put p (hf.keeps d (h.getD p)), Option.bind_some, lawful.get_put]
  put_put (c d : f.type.Data) p := by
    have first := hf.keeps c (h.getD p)
    dsimp only [Slot.field]
    rw [h.get_put p first, Option.getD_some, lawful.put_put, h.put_put p first]
    exact hf.keeps d (h.getD p)

theorem get_field (apart : f.Apart g) (fresh : g.get s.new = none) (c : f.type.Data) (p : P) :
    (s.field g).get ((s.field f).put c p) = (s.field g).get p := by
  dsimp only [Slot.field]
  rw [h.get_put p (hf.keeps c (h.getD p)), Option.bind_some, apart.get_right]
  cases s.get? p with
  | none => exact fresh
  | some q => rfl

include hg

theorem apart (apart : f.Apart g) : (s.field f).Apart (s.field g) where
  put_comm (c : f.type.Data) (d : g.type.Data) p := by
    have left := hf.keeps c (h.getD p)
    have right := hg.keeps d (h.getD p)
    dsimp only [Slot.field]
    rw [h.get_put p right, h.get_put p left, Option.getD_some, Option.getD_some,
      h.put_put p right (hf.keeps c right), h.put_put p left (hg.keeps d left), apart.put_comm]
  get_left := h.get_field hg (symm apart) hf.fresh
  get_right := h.get_field hf apart hg.fresh

end Lawful
end Slot

namespace HttpRequest

theorem independent_auth : Field.Independent BasicAuth.fields where
  lawful := by
    repeat refine List.forall_mem_cons.2 ⟨⟨fun _ _ => rfl, fun _ _ _ => rfl⟩, ?_⟩
    exact List.forall_mem_nil _
  apart := by
    refine .cons ?_ (List.pairwise_singleton _ _)
    exact List.forall_mem_singleton.2 ⟨fun _ _ _ => rfl, fun _ _ => rfl, fun _ _ => rfl⟩

def authSlot : Slot HttpRequest BasicAuth := ⟨(·.auth), fun a p => { p with auth := some a }, {}⟩

theorem lawful_authSlot : authSlot.Lawful fun _ => True :=
  ⟨trivial, fun _ => trivial, fun _ _ => rfl, fun _ _ _ => rfl⟩

theorem holds_authSlot : ∀ f ∈ BasicAuth.fields, authSlot.Holds (fun _ => True) f := by
  repeat refine List.forall_mem_cons.2 ⟨⟨fun _ _ => trivial, rfl⟩, ?_⟩
  exact List.forall_mem_nil _

theorem apart_authSlot (g : Field BasicAuth) :
    ∀ f ∈ (fields : List (Field HttpRequest)), f.Apart (authSlot.field g) := by
  repeat refine List.forall_mem_cons.2 ⟨⟨fun _ _ _ => rfl, fun _ _ => rfl, fun _ _ => rfl⟩, ?_⟩
  exact List.forall_mem_nil _

instance : Addressing HttpRequest where
  place name := ((authName? name).map .auth).getD (.own name)
  field?
    | .own name => Field.ofName? fields name
    | .auth name => (Field.ofName? BasicAuth.fields name).map authSlot.field
    | .option .. => none
  declared _ := []

/-- A name inside the inner block is that of a field. -/
theorem ofName?_of_authName? {name inner : String} (h : authName? name = some inner) :
    ∃ f, Field.ofName? BasicAuth.fields inner = some f := by
  obtain ⟨-, known⟩ := Option.filter_eq_some_iff.1 h
  obtain ⟨f, hf, rfl⟩ := List.mem_map.1 (List.contains_iff_mem.1 known)
  exact Option.isSome_iff_exists.1 (List.find?_isSome.2 ⟨f, hf, beq_self_eq_true _⟩)

theorem field?_cases {a : Place} {f : Field HttpRequest} (h : field? a = some f) :
    (∃ n, a = .own n ∧ Field.ofName? fields n = some f) ∨
      ∃ n g, a = .auth n ∧ Field.ofName? BasicAuth.fields n = some g ∧ f = authSlot.field g := by
  cases a with
  | own n => exact .inl ⟨n, rfl, h⟩
  | auth n =>
    obtain ⟨g, hg, rfl⟩ := Option.map_eq_some_iff.1 h
    exact .inr ⟨n, g, rfl, hg, rfl⟩
  | option => cases h

theorem apart_of_ne {a b : Place} {f g : Field HttpRequest} (ne : a ≠ b) (hf : field? a = some f)
    (hg : field? b = some g) : f.Apart g := by
  rcases field?_cases hf with ⟨m, rfl, hm⟩ | ⟨m, f, rfl, hm, rfl⟩ <;>
    rcases field?_cases hg with ⟨n, rfl, hn⟩ | ⟨n, g, rfl, hn, rfl⟩
  · exact (StepKind.independent .http).apart_of_ne (fun h => ne (congrArg _ h)) hm hn
  · exact apart_authSlot g f (Field.mem_of_ofName? hm)
  · exact symm (apart_authSlot f g (Field.mem_of_ofName? hn))
  · exact lawful_authSlot.apart (holds_authSlot f (Field.mem_of_ofName? hm))
      (holds_authSlot g (Field.mem_of_ofName? hn))
      (independent_auth.apart_of_ne (fun h => ne (congrArg _ h)) hm hn)

instance : LawfulAddressing HttpRequest where
  set_eq name v p := by
    dsimp only [Payload.set, Addressing.place]
    cases hn : authName? name with
    | none => rfl
    | some inner =>
      obtain ⟨f, hf⟩ := ofName?_of_authName? hn
      dsimp only [Option.map_some, Option.getD_some, Addressing.field?]
      rw [Field.set_eq, hf]
      dsimp only [Option.map_some, Slot.field]
      cases f.type.convert name v <;> rfl
  lawful h := by
    rcases field?_cases h with ⟨n, -, hf⟩ | ⟨n, g, -, hg, rfl⟩
    · exact (StepKind.independent .http).lawful _ (Field.mem_of_ofName? hf)
    · have hm := Field.mem_of_ofName? hg
      exact lawful_authSlot.field (holds_authSlot g hm) (independent_auth.lawful g hm)
  put_comm ne hf hg _ c d := (apart_of_ne ne hf hg).put_comm c d _
  get_put ne hf hg := (apart_of_ne ne hf hg).get_right
  open_put _ _ _ _ _ := rfl
  mem_declared_put h := by
    rcases field?_cases h with ⟨n, rfl, -⟩ | ⟨n, g, rfl, -⟩ <;>
      exact ⟨fun hx => (nomatch hx), fun hx => hx.elim nofun id⟩
  mem_declared_open hx := nomatch hx
  mem_declared_own {name} x h := by
    dsimp only [Addressing.place] at h
    cases hn : authName? name <;> simp [hn, Place.option?] at h
  get_open _ _ _ _ := rfl
  declared_open h _ _ := h
  nodup_empty := .nil
  nodup_put _ _ _ := .nil
  nodup_open _ _ _ := .nil

end HttpRequest

namespace InputOption

theorem ofName?_name : ∀ f ∈ fields, Field.ofName? fields f.name = some f := by
  repeat refine List.forall_mem_cons.2 ⟨rfl, ?_⟩
  exact List.forall_mem_nil _

theorem value_put : ∀ f ∈ fields, ∀ d (o : InputOption), (f.put d o).value = o.value := by
  repeat refine List.forall_mem_cons.2 ⟨fun _ _ => rfl, ?_⟩
  exact List.forall_mem_nil _

end InputOption

namespace InputRequest

section
variable {o u : InputOption} {os : List InputOption} {x : String}

theorem find?_putOption (o : InputOption) (os : List InputOption) :
    (putOption o os).find? (·.value == o.value) = some o := by
  induction os with
  | nil => simp [putOption]
  | cons u os ih =>
    unfold putOption
    split
    · simp
    · rename_i ne
      rwa [List.find?_cons_of_neg (by simpa using ne)]

theorem find?_putOption_of_ne (ne : o.value ≠ x) :
    (putOption o os).find? (·.value == x) = os.find? (·.value == x) := by
  induction os with
  | nil => simp [putOption, ne]
  | cons u os ih =>
    unfold putOption
    split
    · rename_i same
      have ne' : u.value ≠ x := beq_iff_eq.1 same ▸ ne
      simp [ne, ne']
    · rw [List.find?_cons, List.find?_cons, ih]

theorem putOption_putOption (same : o.value = u.value) :
    putOption u (putOption o os) = putOption u os := by
  induction os with
  | nil => simp [putOption, same]
  | cons w os ih =>
    by_cases h : w.value = u.value
    · simp [putOption, same, h]
    · simp [putOption, same, h, ih]

/-- Only the first of two new options decides where they stand. -/
theorem putOption_comm (ne : o.value ≠ u.value) (mem : o.value ∈ os.map (·.value)) :
    putOption o (putOption u os) = putOption u (putOption o os) := by
  induction os with
  | nil => cases mem
  | cons w os ih =>
    by_cases ho : w.value = o.value
    · simp [putOption, ho, ne]
    · have mem' : o.value ∈ os.map (·.value) := (List.mem_cons.1 mem).resolve_left (Ne.symm ho)
      by_cases hu : w.value = u.value
      · simp [putOption, hu, Ne.symm ne]
      · simp [putOption, ho, hu, ih mem']

theorem putOption_of_find? (h : os.find? (·.value == x) = some o) : putOption o os = os := by
  have hx : o.value = x := by simpa using List.find?_some h
  induction os with
  | nil => cases h
  | cons w os ih =>
    by_cases hw : w.value = x
    · rw [List.find?_cons_of_pos (by simpa using hw)] at h
      cases h
      simp [putOption]
    · rw [List.find?_cons_of_neg (by simpa using hw)] at h
      simp [putOption, hx, hw, ih h]

theorem mem_values_putOption :
    x ∈ (putOption o os).map (·.value) ↔ x = o.value ∨ x ∈ os.map (·.value) := by
  induction os with
  | nil => simp [putOption]
  | cons w os ih =>
    by_cases hw : w.value = o.value
    · simp [putOption, hw]
    · simp only [putOption, beq_iff_eq, hw, if_false, List.map_cons, List.mem_cons, ih]
      exact or_left_comm

theorem nodup_putOption (distinct : (os.map (·.value)).Nodup) :
    ((putOption o os).map (·.value)).Nodup := by
  induction os with
  | nil => exact List.pairwise_singleton _ _
  | cons w os ih =>
    obtain ⟨other, distinct⟩ := List.nodup_cons.1 distinct
    unfold putOption
    split
    · rename_i same
      refine List.nodup_cons.2 ⟨?_, distinct⟩
      dsimp only
      rwa [← beq_iff_eq.1 same]
    · rename_i ne
      refine List.nodup_cons.2 ⟨fun mem => ?_, ih distinct⟩
      exact (mem_values_putOption.1 mem).elim (fun same => ne (beq_iff_eq.2 same)) other

end

/-- The place of the option of a value. -/
def optionSlot (value : String) : Slot InputRequest InputOption :=
  ⟨(·.option? value), fun o p => { p with options := putOption o p.options }, { value }⟩

theorem lawful_optionSlot (value : String) : (optionSlot value).Lawful (·.value = value) where
  new := rfl
  get h := by simpa using List.find?_some h
  get_put p h := h ▸ find?_putOption _ _
  put_put p hq hr :=
    congrArg (fun os => ({ p with options := os } : InputRequest))
      (putOption_putOption (hq.trans hr.symm))

theorem holds_optionSlot (value : String) :
    ∀ f ∈ InputOption.fields, (optionSlot value).Holds (·.value = value) f := by
  repeat refine List.forall_mem_cons.2 ⟨⟨fun _ h => h, rfl⟩, ?_⟩
  exact List.forall_mem_nil _

theorem independent_option : Field.Independent InputOption.fields where
  lawful := by
    repeat refine List.forall_mem_cons.2 ⟨⟨fun _ _ => rfl, fun _ _ _ => rfl⟩, ?_⟩
    exact List.forall_mem_nil _
  apart := by
    repeat
      refine List.Pairwise.cons ?_ ?_
      · repeat refine List.forall_mem_cons.2 ⟨⟨fun _ _ _ => rfl, fun _ _ => rfl, fun _ _ => rfl⟩, ?_⟩
        exact List.forall_mem_nil _
    exact .nil

theorem apart_optionSlot (value : String) (g : Field InputOption) :
    ∀ f ∈ (Payload.fields : List (Field InputRequest)), f.Apart ((optionSlot value).field g) := by
  repeat refine List.forall_mem_cons.2 ⟨⟨fun _ _ _ => rfl, fun _ _ => rfl, fun _ _ => rfl⟩, ?_⟩
  exact List.forall_mem_nil _

theorem options_put : ∀ f ∈ (Payload.fields : List (Field InputRequest)), ∀ c p,
    (f.put c p).options = p.options ∧ ∀ x, (f.put c p).declare x = f.put c (p.declare x) := by
  repeat refine List.forall_mem_cons.2 ⟨fun _ _ => ⟨rfl, fun _ => rfl⟩, ?_⟩
  exact List.forall_mem_nil _

theorem get_declare : ∀ f ∈ (Payload.fields : List (Field InputRequest)), ∀ x p,
    f.get (p.declare x) = f.get p := by
  repeat refine List.forall_mem_cons.2 ⟨fun _ _ => rfl, ?_⟩
  exact List.forall_mem_nil _

instance : Addressing InputRequest where
  place name :=
    ((optionName? name).map fun (value, field) => .option value field).getD (.own (notifyTarget name))
  field?
    | .own name => Field.ofName? Payload.fields name
    | .option value name => (Field.ofName? InputOption.fields name).map (optionSlot value).field
    | .auth _ => none
  declared p := p.options.map (·.value)

theorem declared_put {n : String} {f : Field InputRequest} (h : Field.ofName? Payload.fields n = some f)
    (c : f.type.Data) (p : InputRequest) : declared (f.put c p) = declared p :=
  congrArg (List.map (·.value)) (options_put f (Field.mem_of_ofName? h) c p).1

/-- A name inside an option is that of a field. -/
theorem ofName?_of_optionName? {name value inner : String} (h : optionName? name = some (value, inner)) :
    ∃ f, Field.ofName? InputOption.fields inner = some f := by
  obtain ⟨-, known⟩ := Option.filter_eq_some_iff.1 h
  obtain ⟨f, hf, same⟩ := List.mem_map.1 (List.contains_iff_mem.1 known)
  exact Option.isSome_iff_exists.1 (List.find?_isSome.2 ⟨f, hf, beq_iff_eq.2 same⟩)

theorem field?_cases {a : Place} {f : Field InputRequest} (h : field? a = some f) :
    (∃ n, a = .own n ∧ Field.ofName? Payload.fields n = some f) ∨
      ∃ x n g, a = .option x n ∧ Field.ofName? InputOption.fields n = some g ∧
        f = (optionSlot x).field g := by
  cases a with
  | own n => exact .inl ⟨n, rfl, h⟩
  | auth => cases h
  | option x n =>
    obtain ⟨g, hg, rfl⟩ := Option.map_eq_some_iff.1 h
    exact .inr ⟨x, n, g, rfl, hg, rfl⟩

section
variable {x y : String} {p : InputRequest} (ne : x ≠ y)
include ne

theorem get?_put_of_ne {u : InputOption} (hu : u.value = y) (p : InputRequest) :
    (optionSlot x).get? ((optionSlot y).put u p) = (optionSlot x).get? p :=
  find?_putOption_of_ne fun h => ne (h.symm.trans hu)

theorem put_put_of_ne {o u : InputOption} (ho : o.value = x) (hu : u.value = y)
    (hx : x ∈ declared p) : (optionSlot x).put o ((optionSlot y).put u p) =
      (optionSlot y).put u ((optionSlot x).put o p) := by
  refine congrArg (fun os => ({ p with options := os } : InputRequest)) (putOption_comm ?_ ?_)
  · rwa [ho, hu]
  · rwa [ho]

variable {f g : Field InputOption} (hg : g ∈ InputOption.fields)
include hg

theorem get_field_of_ne (d : g.type.Data) (p : InputRequest) :
    ((optionSlot x).field f).get (((optionSlot y).field g).put d p) =
      ((optionSlot x).field f).get p := by
  have hu := (holds_optionSlot y g hg).keeps d ((lawful_optionSlot y).getD p)
  dsimp only [Slot.field]
  rw [get?_put_of_ne ne hu]

theorem put_field_of_ne (hf : f ∈ InputOption.fields) (hx : x ∈ declared p) (c : f.type.Data)
    (d : g.type.Data) :
    ((optionSlot x).field f).put c (((optionSlot y).field g).put d p) =
      ((optionSlot y).field g).put d (((optionSlot x).field f).put c p) := by
  have ho := (holds_optionSlot x f hf).keeps c ((lawful_optionSlot x).getD p)
  have hu := (holds_optionSlot y g hg).keeps d ((lawful_optionSlot y).getD p)
  dsimp only [Slot.field]
  rw [get?_put_of_ne ne hu, get?_put_of_ne (Ne.symm ne) ho, put_put_of_ne ne ho hu hx]

end

theorem declare_of_mem {x : String} {p : InputRequest} (hx : x ∈ declared p) : p.declare x = p := by
  obtain ⟨o, ho, same⟩ := List.mem_map.1 hx
  obtain ⟨u, hu⟩ := Option.isSome_iff_exists.1
    (List.find?_isSome.2 ⟨o, ho, beq_iff_eq.2 same⟩ : (p.option? x).isSome)
  refine congrArg (fun os => ({ p with options := os } : InputRequest)) ?_
  rw [optionOf, show p.option? x = some u from hu]
  exact putOption_of_find? hu

theorem declare_put {x : String} {f : Field InputOption} (hf : f ∈ InputOption.fields)
    {p : InputRequest} (hx : x ∈ declared p) (y : String) (c : f.type.Data) :
    (((optionSlot x).field f).put c p).declare y = ((optionSlot x).field f).put c (p.declare y) := by
  have ho := (holds_optionSlot x f hf).keeps c ((lawful_optionSlot x).getD p)
  by_cases same : x = y
  · subst same
    rw [declare_of_mem hx, declare_of_mem (mem_values_putOption.2 (.inr hx))]
  · have hu := (lawful_optionSlot y).getD p
    have declare_eq (q : InputRequest) : q.declare y =
        (optionSlot y).put (((optionSlot y).get? q).getD (optionSlot y).new) q := rfl
    rw [declare_eq, declare_eq]
    dsimp only [Slot.field]
    rw [get?_put_of_ne (Ne.symm same) ho, get?_put_of_ne same hu, put_put_of_ne same ho hu hx]

/-- An option that is declared anew has nothing set. -/
theorem get_field_declare {x : String} {f : Field InputOption} (hf : f ∈ InputOption.fields) (y : String)
    (p : InputRequest) :
    ((optionSlot x).field f).get (p.declare y) = ((optionSlot x).field f).get p := by
  have hu := (lawful_optionSlot y).getD p
  rw [show p.declare y =
    (optionSlot y).put (((optionSlot y).get? p).getD (optionSlot y).new) p from rfl]
  dsimp only [Slot.field]
  by_cases same : x = y
  · subst same
    rw [(lawful_optionSlot x).get_put p hu, Option.bind_some]
    cases (optionSlot x).get? p with
    | none => exact (holds_optionSlot x f hf).fresh
    | some o => rfl
  · rw [get?_put_of_ne same hu]

/-- Fields of one option do not touch each other, nor do they touch the fields outside. -/
theorem apart_of_ne {a b : Place} {f g : Field InputRequest} (ne : a ≠ b) (hf : field? a = some f)
    (hg : field? b = some g) (one : ∀ x y, a.option? = some x → b.option? = some y → x = y) :
    f.Apart g := by
  rcases field?_cases hf with ⟨m, rfl, hm⟩ | ⟨x, m, f, rfl, hm, rfl⟩ <;>
    rcases field?_cases hg with ⟨n, rfl, hn⟩ | ⟨y, n, g, rfl, hn, rfl⟩
  · exact (StepKind.independent .input).apart_of_ne (fun h => ne (congrArg _ h)) hm hn
  · exact apart_optionSlot y g f (Field.mem_of_ofName? hm)
  · exact symm (apart_optionSlot x f g (Field.mem_of_ofName? hn))
  · obtain rfl := one x y rfl rfl
    exact (lawful_optionSlot x).apart (holds_optionSlot x f (Field.mem_of_ofName? hm))
      (holds_optionSlot x g (Field.mem_of_ofName? hn))
      (independent_option.apart_of_ne (fun h => ne (congrArg _ h)) hm hn)

theorem options_of_ne {a b : Place}
    (h : ¬∀ x y, a.option? = some x → b.option? = some y → x = y) :
    ∃ x y m n, a = .option x m ∧ b = .option y n ∧ x ≠ y := by
  simp only [not_forall] at h
  obtain ⟨x, y, ha, hb, ne⟩ := h
  cases a <;> cases ha
  cases b <;> cases hb
  exact ⟨x, y, _, _, rfl, rfl, ne⟩

theorem openBlock_cases (type : String) (labels : List String) :
    (∀ p : InputRequest, openBlock type labels p = p) ∨
      ∃ x, ∀ p : InputRequest, openBlock type labels p = p.declare x := by
  by_cases h : ∃ x, type = "option" ∧ labels = [x]
  · obtain ⟨x, rfl, rfl⟩ := h
    exact .inr ⟨x, fun _ => rfl⟩
  · refine .inl fun p => ?_
    dsimp only [openBlock]
    split
    · exact absurd ⟨_, rfl, rfl⟩ h
    · rfl

instance : LawfulAddressing InputRequest where
  set_eq name v p := by
    dsimp only [Payload.set, Addressing.place]
    cases hn : optionName? name with
    | none => rfl
    | some found =>
      obtain ⟨value, inner⟩ := found
      obtain ⟨f, hf⟩ := ofName?_of_optionName? hn
      dsimp only [Option.map_some, Option.getD_some, Addressing.field?]
      rw [Field.set_eq, hf]
      dsimp only [Option.map_some, Slot.field]
      cases f.type.convert name v <;> rfl
  lawful h := by
    rcases field?_cases h with ⟨n, -, hf⟩ | ⟨x, n, g, -, hg, rfl⟩
    · exact (StepKind.independent .input).lawful _ (Field.mem_of_ofName? hf)
    · have hm := Field.mem_of_ofName? hg
      exact (lawful_optionSlot x).field (holds_optionSlot x g hm) (independent_option.lawful g hm)
  put_comm {a b f g p} ne hf hg hopen c d := by
    by_cases one : ∀ x y, a.option? = some x → b.option? = some y → x = y
    · exact (apart_of_ne ne hf hg one).put_comm c d p
    · obtain ⟨x, y, m, n, rfl, rfl, ne'⟩ := options_of_ne one
      obtain ⟨f, hm, rfl⟩ := Option.map_eq_some_iff.1 hf
      obtain ⟨g, hn, rfl⟩ := Option.map_eq_some_iff.1 hg
      exact put_field_of_ne ne' (Field.mem_of_ofName? hn) (Field.mem_of_ofName? hm) (hopen x rfl) c d
  get_put {a b f g} ne hf hg c p := by
    by_cases one : ∀ x y, a.option? = some x → b.option? = some y → x = y
    · exact (apart_of_ne ne hf hg one).get_right c p
    · obtain ⟨x, y, m, n, rfl, rfl, ne'⟩ := options_of_ne one
      obtain ⟨f, hm, rfl⟩ := Option.map_eq_some_iff.1 hf
      obtain ⟨g, hn, rfl⟩ := Option.map_eq_some_iff.1 hg
      exact get_field_of_ne (Ne.symm ne') (Field.mem_of_ofName? hm) c p
  open_put {a f p} hf hopen type labels c := by
    rcases openBlock_cases type labels with kept | ⟨y, kept⟩
    · rw [kept, kept]
    · rw [kept, kept]
      rcases field?_cases hf with ⟨n, rfl, hn⟩ | ⟨x, n, g, rfl, hn, rfl⟩
      · exact (options_put f (Field.mem_of_ofName? hn) c p).2 y
      · exact declare_put (Field.mem_of_ofName? hn) (hopen x rfl) y c
  mem_declared_put {a f p c x} hf := by
    rcases field?_cases hf with ⟨n, rfl, hn⟩ | ⟨y, n, g, rfl, hn, rfl⟩
    · rw [declared_put hn]
      exact (or_iff_right nofun).symm
    · have ho := (holds_optionSlot y g (Field.mem_of_ofName? hn)).keeps c ((lawful_optionSlot y).getD p)
      refine mem_values_putOption.trans (or_congr_left ?_)
      rw [ho]
      exact ⟨fun h => congrArg some h.symm, fun h => (Option.some.inj h).symm⟩
  mem_declared_open {p x} hx type labels := by
    rcases openBlock_cases type labels with kept | ⟨y, kept⟩
    · rwa [kept]
    · rw [kept]
      exact mem_values_putOption.2 (.inr hx)
  mem_declared_own {_ x} _ p :=
    mem_values_putOption.2 (.inl ((lawful_optionSlot x).getD p).symm)
  get_open {a f} hf type labels p := by
    rcases openBlock_cases type labels with kept | ⟨y, kept⟩
    · rw [kept]
    · rw [kept]
      rcases field?_cases hf with ⟨n, rfl, hn⟩ | ⟨x, n, g, rfl, hn, rfl⟩
      · exact get_declare f (Field.mem_of_ofName? hn) y p
      · exact get_field_declare (Field.mem_of_ofName? hn) y p
  declared_open {p q} h type labels := by
    rcases openBlock_cases type labels with kept | ⟨y, kept⟩
    · rwa [kept, kept]
    · rw [kept, kept]
      intro x hx
      have hp := ((lawful_optionSlot y).getD p)
      have hq := ((lawful_optionSlot y).getD q)
      rcases mem_values_putOption.1 hx with rfl | hx
      · exact mem_values_putOption.2 (.inl (hp.trans hq.symm))
      · exact mem_values_putOption.2 (.inr (h hx))
  nodup_empty := .nil
  nodup_put {a f p} hf distinct c := by
    rcases field?_cases hf with ⟨n, rfl, hn⟩ | ⟨x, n, g, rfl, hn, rfl⟩
    · rwa [declared_put hn]
    · exact nodup_putOption distinct
  nodup_open distinct type labels := by
    rcases openBlock_cases type labels with kept | ⟨y, kept⟩
    · rwa [kept]
    · rw [kept]
      exact nodup_putOption distinct

end InputRequest

instance : (kind : StepKind) → Addressing kind.Settings
  | .http => inferInstanceAs (Addressing HttpRequest)
  | .input => inferInstanceAs (Addressing InputRequest)
  | .message => .ofTarget notifyTarget
  | .sleep | .email | .transform | .query | .pipeline | .function | .container => .ofTarget id

instance : (kind : StepKind) → LawfulAddressing kind.Settings
  | .http => inferInstanceAs (LawfulAddressing HttpRequest)
  | .input => inferInstanceAs (LawfulAddressing InputRequest)
  | .message => .ofTarget notifyTarget (fun _ _ _ => rfl) (fun _ _ _ => rfl) (StepKind.independent _)
  | .sleep | .email | .transform | .query | .pipeline | .function | .container =>
    .ofTarget id (fun _ _ _ => rfl) (fun _ _ _ => rfl) (StepKind.independent _)

namespace StepKind

/-- Where steps of a kind keep an attribute. -/
def place (kind : StepKind) (name : String) : Place := Addressing.place kind.Settings name

/-- Whether a value is of the type of an attribute. -/
def Fits (kind : StepKind) (name : String) (v : Value) : Prop :=
  Addressing.Fits kind.Settings name v

end StepKind

/-- A place in a choice is that of a field. -/
theorem StepKind.field?_of_option? {kind : StepKind} {name x : String}
    (h : (kind.place name).option? = some x) :
    ∃ f : Field kind.Settings, field? (Addressing.place kind.Settings name) = some f := by
  cases kind with
  | input =>
    have h : (Addressing.place InputRequest name).option? = some x := h
    change ∃ f : Field InputRequest, field? (Addressing.place InputRequest name) = some f
    dsimp only [Addressing.place] at h ⊢
    cases hn : InputRequest.optionName? name with
    | none =>
      rw [hn] at h
      cases h
    | some found =>
      obtain ⟨value, inner⟩ := found
      obtain ⟨f, hf⟩ := InputRequest.ofName?_of_optionName? hn
      exact ⟨(InputRequest.optionSlot value).field f, congrArg (Option.map _) hf⟩
  | http =>
    have h : (Addressing.place HttpRequest name).option? = some x := h
    dsimp only [Addressing.place] at h
    cases hn : HttpRequest.authName? name <;> rw [hn] at h <;> cases h
  | sleep | email | transform | query | pipeline | function | container | message => cases h

namespace StepSpec
variable {s t : StepSpec} {m n : String} {v w : Value}

/-- The settings with a value in the place of an attribute. -/
def store (s : StepSpec) (name : String) (v : Value) : StepSpec :=
  ⟨s.kind, Addressing.store name v s.settings⟩

/-- Whether the choice that a place belongs to is declared. -/
def Opens (s : StepSpec) (a : Place) : Prop := a.Open s.settings

theorem set_eq_ok : s.set n v = .ok t ↔ s.kind.Fits n v ∧ t = s.store n v := by
  obtain ⟨kind, p⟩ := s
  unfold set
  constructor
  · intro h
    cases hq : Payload.set n v p with
    | error m => simp [hq, Except.map] at h
    | ok q =>
      obtain ⟨fits, rfl⟩ := Addressing.set_eq_ok.1 hq
      simp only [hq, Except.map, Except.ok.injEq] at h
      exact ⟨fits, h.symm⟩
  · rintro ⟨fits, rfl⟩
    simp only [Addressing.set_eq_ok.2 ⟨fits, rfl⟩]
    rfl

theorem store_comm (ne : s.kind.place m ≠ s.kind.place n) (hm : s.Opens (s.kind.place m)) :
    (s.store n w).store m v = (s.store m v).store n w :=
  have comm : Addressing.store m v (Addressing.store n w s.settings) =
      Addressing.store n w (Addressing.store m v s.settings) := Addressing.store_comm ne hm
  congrArg (StepSpec.mk s.kind) comm

theorem store_store (same : s.kind.place m = s.kind.place n) (fits : s.kind.Fits n w) :
    (s.store m v).store n w = s.store n w :=
  have kept : Addressing.store n w (Addressing.store m v s.settings) =
      Addressing.store n w s.settings := Addressing.store_store same fits
  congrArg (StepSpec.mk s.kind) kept

/-- Only the place of an attribute counts. -/
theorem store_congr (same : s.kind.place m = s.kind.place n) : s.store m v = s.store n v :=
  have kept : Addressing.store m v s.settings = Addressing.store n v s.settings :=
    Addressing.store_congr same _
  congrArg (StepSpec.mk s.kind) kept

theorem openBlock_store (hn : s.Opens (s.kind.place n)) (type : String) (labels : List String) :
    (s.store n v).openBlock type labels = (s.openBlock type labels).store n v :=
  congrArg (StepSpec.mk s.kind) (Addressing.store_open hn type labels)

theorem Opens.store {a : Place} (h : s.Opens a) (n : String) (v : Value) :
    (s.store n v).Opens a :=
  have kept : a.Open (Addressing.store n v s.settings) := Place.Open.store h n v
  kept

theorem Opens.openBlock {a : Place} (h : s.Opens a) (type : String) (labels : List String) :
    (s.openBlock type labels).Opens a :=
  have kept : a.Open (Payload.openBlock type labels s.settings) := Place.Open.open h type labels
  kept

/-- A choice is declared once something is stored in it. -/
theorem opens_store (fits : s.kind.Fits n v) : (s.store n v).Opens (s.kind.place n) := by
  intro x hx
  obtain ⟨f, hf⟩ := StepKind.field?_of_option? hx
  obtain ⟨d, hd⟩ := fits f hf
  have stored : Addressing.store n v s.settings = f.put d s.settings := by
    simp only [Addressing.store, hf, hd]
    rfl
  rw [store, stored]
  exact (LawfulAddressing.mem_declared_put hf).2 (.inl hx)

theorem opens_own {x : String} (hx : (s.kind.place n).option? = some x) :
    (s.openBlock "option" [x]).Opens (s.kind.place n) := by
  intro y hy
  obtain rfl := Option.some.inj (hx.symm.trans hy)
  exact LawfulAddressing.mem_declared_own hx s.settings

end StepSpec
end PipelineResolution
