import PipelineResolution.Proofs.Document.Layout
import PipelineResolution.Proofs.Number.Texts
import PipelineResolution.Proofs.Resolution.Recognition

/-!
# Keys of decoded documents

No mapping of a document has the same key twice, so a word that only a text spells names at most one
attribute of a block.
-/
namespace PipelineResolution
namespace Yaml

/-- No mapping inside has two keys that are the same. -/
inductive Keyed : Yaml → Prop where
  | null : Keyed .null
  | bool (b : Bool) : Keyed (.bool b)
  | int (n : Int) : Keyed (.int n)
  | float (x : Number) : Keyed (.float x)
  | string (s : String) : Keyed (.string s)
  | sequence {items : List Yaml} (h : ∀ y ∈ items, Keyed y) : Keyed (.sequence items)
  | mapping {entries : List (Yaml × Yaml)} (distinct : distinctKeys entries = true)
      (keys : ∀ e ∈ entries, Keyed e.1) (values : ∀ e ∈ entries, Keyed e.2) :
      Keyed (.mapping entries)
  | tagged {tag : String} {y : Yaml} (h : Keyed y) : Keyed (.tagged tag y)

variable {y : Yaml}

theorem keyed_ofPlain {s : String} (h : ofPlain s = some y) : y.Keyed := by
  unfold ofPlain at h
  dsimp only at h
  split at h
  · cases h
    exact .null
  · split at h
    · cases h
      exact .bool _
    · split at h <;> cases h
      exact .int _
    · cases h
      exact .float _
    · cases h
      exact .string _

theorem keyed_ofStandardTag {tag text : String} (h : ofStandardTag tag text = some y) :
    y.Keyed := by
  unfold ofStandardTag at h
  split at h
  · obtain ⟨b, -, rfl⟩ := Option.map_eq_some_iff.1 h
    exact .bool b
  · obtain ⟨n, -, rfl⟩ := Option.map_eq_some_iff.1 h
    exact .int n
  · obtain ⟨x, -, rfl⟩ := Option.map_eq_some_iff.1 h
    exact .float x
  · split at h <;> cases h
    exact .null
  · cases h
    exact .string text

theorem keyed_ofScalar {p : Properties Nat} {text : String} {plain : Bool}
    (h : ofScalar p text plain = some y) : y.Keyed := by
  have untagged {y : Yaml} (h : (if plain then ofPlain text else some (.string text)) = some y) :
      y.Keyed := by
    split at h
    · exact keyed_ofPlain h
    · cases h
      exact .string text
  unfold ofScalar at h
  dsimp only at h
  split at h
  · exact untagged h
  · obtain ⟨y, hy, rfl⟩ := Option.map_eq_some_iff.1 h
    exact .tagged (untagged hy)
  · exact keyed_ofStandardTag h
  · exact untagged h

theorem keyed_withTag {p : Properties Nat} {y' : Yaml} (hy : y.Keyed)
    (h : withTag p y = some y') : y'.Keyed := by
  unfold withTag at h
  split at h
  · cases h
  · cases h
    exact .tagged hy
  · cases h
    exact hy

end Yaml

/-- Every result of a computation has a property. -/
def Yields {σ α : Type} (P : α → Prop) (x : StateT σ Option α) : Prop :=
  ∀ s a s', x s = some (a, s') → P a

namespace Yields
variable {σ α β : Type} {P : α → Prop} {Q : β → Prop}

theorem failure : Yields P (failure : StateT σ Option α) := fun _ _ _ h => nomatch h

theorem pure {a : α} (h : P a) : Yields P (Pure.pure a : StateT σ Option α) := by
  intro s a' s' found
  cases found
  exact h

theorem bind {x : StateT σ Option α} {f : α → StateT σ Option β} (hx : Yields P x)
    (hf : ∀ a, P a → Yields Q (f a)) : Yields Q (x >>= f) := by
  intro s b s' found
  obtain ⟨⟨a, s₁⟩, ha, hb⟩ := Option.bind_eq_some_iff.1 found
  exact hf a (hx s a s₁ ha) s₁ b s' hb

theorem elim {o : Option α} (h : ∀ a, o = some a → P a) :
    Yields P (o.elim Alternative.failure Pure.pure : StateT σ Option α) := by
  cases o with
  | none => exact failure
  | some a => exact pure (h a rfl)

theorem mapM {f : α → StateT σ Option β} (h : ∀ a, Yields Q (f a)) (as : List α) :
    Yields (fun bs => ∀ b ∈ bs, Q b) (as.mapM f) := by
  induction as with
  | nil => exact pure fun _ hb => nomatch hb
  | cons a as ih =>
    rw [List.mapM_cons]
    exact (h a).bind fun b hb => ih.bind fun bs hbs => pure (List.forall_mem_cons.2 ⟨hb, hbs⟩)

end Yields

namespace Yaml

/-- An alias stands for a copy of a node that is no alias. -/
theorem keyed_of_written {anchored : List (Nat × Node Nat)} {depth : Nat}
    (written : ∀ node, (∀ n, node ≠ .alias n) → Yields Keyed (ofNode anchored depth node))
    (node : Node Nat) : Yields Keyed (ofNode anchored depth node) := by
  have always {α : Type} (x : StateT Nat Option α) : Yields (fun _ => True) x :=
    fun _ _ _ _ => trivial
  by_cases copies : ∃ n, node = .alias n
  · obtain ⟨n, rfl⟩ := copies
    cases depth
    all_goals
      unfold ofNode
      refine (always get).bind fun left _ => ?_
      split
      · rename_i copied _
        refine (always _).bind fun _ _ => ?_
        by_cases again : ∃ n, copied = .alias n
        · obtain ⟨n, rfl⟩ := again
          exact .failure
        · have yields := written copied fun n hn => again ⟨n, hn⟩
          unfold ofNode at yields
          rcases copied with n | _ | _ | _
          · exact absurd ⟨n, rfl⟩ again
          all_goals exact yields
      · exact .failure
  · exact written node fun n hn => copies ⟨n, hn⟩

theorem keyed_ofNode (anchored : List (Nat × Node Nat)) (depth : Nat) (node : Node Nat) :
    Yields Keyed (ofNode anchored depth node) := by
  induction depth generalizing node with
  | zero =>
    refine keyed_of_written (fun node h => ?_) node
    unfold ofNode
    rcases node with n | ⟨p, text, plain⟩ | _ | _
    · exact absurd rfl (h n)
    · exact .elim fun _ => keyed_ofScalar
    · exact .failure
    · exact .failure
  | succ depth ih =>
    refine keyed_of_written (fun node h => ?_) node
    unfold ofNode
    rcases node with n | ⟨p, text, plain⟩ | ⟨p, items⟩ | ⟨p, entries⟩
    · exact absurd rfl (h n)
    · exact .elim fun _ => keyed_ofScalar
    · exact (Yields.mapM ih items).bind fun items h => .elim fun _ => keyed_withTag (.sequence h)
    · have entry (e : Node Nat × Node Nat) : Yields (fun e => e.1.Keyed ∧ e.2.Keyed) (do
          return (← ofNode anchored depth e.1, ← ofNode anchored depth e.2)) :=
        (ih e.1).bind fun k hk => (ih e.2).bind fun v hv => .pure ⟨hk, hv⟩
      refine (Yields.mapM entry entries).bind fun entries h => ?_
      split
      · rename_i distinct
        exact .elim fun _ => keyed_withTag
          (.mapping distinct (fun e he => (h e he).1) fun e he => (h e he).2)
      · exact .failure

theorem keyed_of_read? {text : String} {y : Yaml} (h : read? text = some y) : y.Keyed := by
  unfold read? at h
  obtain ⟨named, -, h⟩ := Option.bind_eq_some_iff.1 h
  obtain ⟨⟨node, names⟩, -, h⟩ := Option.bind_eq_some_iff.1 h
  obtain ⟨⟨y', left⟩, found, h⟩ := Option.bind_eq_some_iff.1 h
  cases h
  exact keyed_ofNode node.anchored Node.nestingLimit node _ _ _ found

end Yaml

/-! ## Words -/

/-- Only a text spells the word as a key. -/
def Yaml.OnlyText (word : String) : Prop := ∀ y : Yaml, y.keyText? = some word → y = .string word

/-- A word with a letter that no number has is spelled by a text only, unless it names a bool. -/
theorem Yaml.onlyText_of_mem {word : String} {c : Char} (hc : c ∈ word.toList)
    (letter : c.isDigit = false) (mark : c ∉ ['-', '.', 'e']) (hnan : c ∉ ".nan".toList)
    (hinfinity : c ∉ ".inf".toList) (bools : word ≠ "true" ∧ word ≠ "false") :
    OnlyText word := by
  intro y h
  unfold keyText? at h
  split at h
  · cases h
    rfl
  · cases h
    exact absurd hc (notMem_toString letter (fun h => mark (by simp [h])) _)
  · cases h
    have suffix : c ∉ Layout.compact.wholeSuffix.toList := by
      have point : c ≠ '.' := fun h => mark (by simp [h])
      have zero : c ≠ '0' := by
        rintro rfl
        cases letter
      simp [Layout.compact, point, zero]
    exact absurd hc (notMem_render letter mark suffix (by simp [Layout.compact]) hnan hinfinity _)
  · rename_i b
    cases b <;> cases h
    · exact absurd rfl bools.2
    · exact absurd rfl bools.1
  · cases h

theorem Yaml.onlyText_title : OnlyText "title" := by
  have hc : 't' ∈ "title".toList := by decide
  exact onlyText_of_mem hc (by decide) (by decide) (by decide) (by decide) (by decide)

theorem Yaml.onlyText_description : OnlyText "description" := by
  have hc : 's' ∈ "description".toList := by decide
  exact onlyText_of_mem hc (by decide) (by decide) (by decide) (by decide) (by decide)

/-! ## Attributes -/

/-- A mapping of the document spells a word as its key at most once. -/
theorem Yaml.count_keys_le {word : String} (only : OnlyText word) {entries : List (Yaml × Yaml)}
    (distinct : distinctKeys entries = true) :
    (entries.filterMap (·.1.keyText?)).count word ≤ 1 := by
  induction entries with
  | nil => simp
  | cons e entries ih =>
    obtain ⟨k, v⟩ := e
    simp only [distinctKeys, Bool.and_eq_true, Bool.not_eq_true'] at distinct
    obtain ⟨fresh, distinct⟩ := distinct
    by_cases hk : k.keyText? = some word
    · have others : word ∉ entries.filterMap (·.1.keyText?) := by
        intro h
        obtain ⟨e, he, hword⟩ := List.mem_filterMap.1 h
        have same := List.any_eq_false.1 fresh e he
        rw [only k hk, only e.1 hword] at same
        exact same (by rw [Yaml.same]; exact beq_self_eq_true word)
      rw [List.filterMap_cons, hk]
      simp [List.count_eq_zero.2 others]
    · rw [List.filterMap_cons]
      split
      · exact ih distinct
      · rename_i other hother
        rw [List.count_cons_of_ne]
        · exact ih distinct
        · rintro rfl
          exact hk hother

namespace Block

/-- A block whose body is left out, is no mapping, or is a mapping of a document. -/
inductive OfBody (type : String) : Block → Prop where
  | empty (labels : List String) (location : Location) :
    OfBody type (ofItems type labels location [])
  | withoutBody (labels : List String) (location : Location) :
    OfBody type (withoutBody type labels location)
  | mapping (labels : List String) (location : Location) {entries : List (Yaml × Yaml)}
    (keyed : (Yaml.mapping entries).Keyed) :
    OfBody type (ofItems type labels location (itemsOfBody type location entries))

end Block

/-- An item that is no attribute of the body that it stands in. -/
def BodyItem.Inner (type : String) : BodyItem → Prop
  | .attribute _ => False
  | .block b => b.OfBody type
  | .problem _ => True

namespace Block

mutual
theorem inner_itemsOfLabels (type : String) (more : Nat) (labels : List String)
    (location : Location) (entries : List (Yaml × Yaml)) (keyed : ∀ e ∈ entries, e.2.Keyed) :
    ∀ i ∈ itemsOfLabels type more labels location entries, i.Inner type := by
  intro i hi
  unfold itemsOfLabels at hi
  split at hi
  · cases hi
  · rename_i k v entries
    obtain ⟨hv, keyed⟩ := List.forall_mem_cons.1 keyed
    rcases List.mem_append.1 hi with hi | hi
    · split at hi
      · rw [List.mem_singleton.1 hi]
        exact trivial
      · exact inner_itemsOfLabeled type more _ _ v hv i hi
    · exact inner_itemsOfLabels type more labels location entries keyed i hi
termination_by sizeOf entries

theorem inner_itemsOfLabeled (type : String) (more : Nat) (labels : List String)
    (location : Location) (y : Yaml) (keyed : y.Keyed) :
    ∀ i ∈ itemsOfLabeled type more labels location y, i.Inner type := by
  intro i hi
  unfold itemsOfLabeled at hi
  split at hi
  · rename_i entries
    split at hi
    · rw [List.mem_singleton.1 hi]
      exact .mapping labels location keyed
    · rename_i n
      have values : ∀ e ∈ entries, e.2.Keyed := by
        cases keyed
        assumption
      exact inner_itemsOfLabels type n labels location entries values i hi
  · split at hi <;> rw [List.mem_singleton.1 hi]
    · exact .empty labels location
    · exact trivial
  · split at hi <;> rw [List.mem_singleton.1 hi]
    · exact .empty labels location
    · exact trivial
  · split at hi <;> rw [List.mem_singleton.1 hi]
    · exact .withoutBody labels location
    · exact trivial
termination_by sizeOf y
end

theorem ofBody_ofYaml (type : String) (location : Location) {y : Yaml} (keyed : y.Keyed) :
    (ofYaml type location y).OfBody type := by
  unfold ofYaml
  split
  · exact .empty [] location
  · exact .empty [] location
  · exact .mapping [] location keyed
  · exact .withoutBody [] location

theorem inner_itemsOfSequence (type : String) (location : Location) (position : Nat)
    (ys : List Yaml) (keyed : ∀ y ∈ ys, y.Keyed) :
    ∀ i ∈ itemsOfSequence type location position ys, i.Inner type := by
  induction ys generalizing position with
  | nil =>
    intro i hi
    unfold itemsOfSequence at hi
    cases hi
  | cons y ys ih =>
    obtain ⟨hy, keyed⟩ := List.forall_mem_cons.1 keyed
    unfold itemsOfSequence
    exact List.forall_mem_cons.2 ⟨ofBody_ofYaml type _ hy, ih (position + 1) keyed⟩

/-- An entry is an attribute under its key or gives inner blocks. -/
theorem inner_or_attribute (type key : String) (location : Location) {y : Yaml} (keyed : y.Keyed) :
    (∀ i ∈ itemsOfEntry type key location y, i.Inner key) ∨
      itemsOfEntry type key location y = [attributeItem key location y] := by
  unfold itemsOfEntry
  split
  · rename_i entries
    split
    · exact .inl (List.forall_mem_singleton.2 (.mapping [] location keyed))
    · rename_i n _
      have values : ∀ e ∈ entries, e.2.Keyed := by
        cases keyed
        assumption
      exact .inl (inner_itemsOfLabels key n [] location entries values)
    · exact .inl (List.forall_mem_singleton.2 (.mapping [] (location.child "0") keyed))
    · exact .inr rfl
  · rename_i items
    split
    · have items : ∀ y ∈ items, y.Keyed := by
        cases keyed
        assumption
      exact .inl (inner_itemsOfSequence key location 0 _ items)
    · exact .inr rfl
  · exact .inr rfl

theorem attributes_append {type : String} {labels : List String} {location : Location}
    (items items' : List BodyItem) :
    (ofItems type labels location (items ++ items')).attributes =
      (ofItems type labels location items).attributes ++
        (ofItems type labels location items').attributes :=
  List.filterMap_append

theorem attributes_of_inner {type key : String} {labels : List String} {location : Location}
    {items : List BodyItem} (inner : ∀ i ∈ items, i.Inner key) :
    (ofItems type labels location items).attributes = [] := by
  refine List.filterMap_eq_nil_iff.2 fun i hi => ?_
  rcases i with a | b | d
  · exact (inner _ hi).elim
  · rfl
  · rfl

/-- The attributes of a body are named by keys of it, in their order. -/
theorem names_itemsOfBody (type : String) (labels : List String) (location place : Location)
    {entries : List (Yaml × Yaml)} (keyed : ∀ e ∈ entries, e.2.Keyed) :
    ((ofItems type labels place (itemsOfBody type location entries)).attributes.map
      (·.name)).Sublist (entries.filterMap (·.1.keyText?)) := by
  induction entries with
  | nil =>
    unfold itemsOfBody
    exact .slnil
  | cons e entries ih =>
    obtain ⟨k, v⟩ := e
    obtain ⟨hv, keyed⟩ := List.forall_mem_cons.1 keyed
    unfold itemsOfBody
    rw [attributes_append, List.map_append]
    cases hk : k.keyText? with
    | none =>
      rw [List.filterMap_cons, hk]
      exact ih keyed
    | some key =>
      rw [List.filterMap_cons, hk]
      change List.Sublist _ ([key] ++ _)
      refine List.Sublist.append ?_ (ih keyed)
      dsimp only
      rcases inner_or_attribute type key (location.child key) hv with inner | item
      · rw [attributes_of_inner inner]
        exact List.nil_sublist _
      · rw [item]
        unfold attributeItem
        split
        · exact .refl _
        · exact List.nil_sublist _

/-- Of a word that only a text spells, the block has at most one attribute. -/
def GivesOnce (b : Block) : Prop :=
  ∀ word, Yaml.OnlyText word → (b.attributes.map (·.name)).count word ≤ 1

/-- An attribute with such a word as its name is found by it. -/
theorem GivesOnce.attribute?_eq {b : Block} (once : b.GivesOnce) {a : Attribute}
    (ha : a ∈ b.attributes) (only : Yaml.OnlyText a.name) : b.attribute? a.name = some a := by
  obtain ⟨before, after, split⟩ := List.append_of_mem ha
  have unique := once a.name only
  rw [split, List.map_append, List.map_cons, List.count_append, List.count_cons_self] at unique
  have first : ∀ other ∈ before, other.name ≠ a.name := by
    intro other ho same
    have counted : 0 < (before.map (·.name)).count a.name :=
      List.count_pos_iff.2 (List.mem_map.2 ⟨other, ho, same⟩)
    omega
  rw [Block.attribute?, split, List.find?_append, List.find?_eq_none.2 (by simpa using first)]
  simp

theorem OfBody.givesOnce {type : String} {b : Block} (h : b.OfBody type) : b.GivesOnce := by
  intro word only
  cases h with
  | empty labels location => simp [ofItems]
  | withoutBody labels location => simp [Block.withoutBody, ofItems]
  | mapping labels location keyed =>
    cases keyed with
    | mapping distinct _ values =>
      exact Nat.le_trans ((names_itemsOfBody type labels location location values).count_le word)
        (Yaml.count_keys_le only distinct)

theorem inner_itemsOfBody (type : String) (location : Location) {entries : List (Yaml × Yaml)}
    (keyed : ∀ e ∈ entries, e.2.Keyed) :
    ∀ b, .block b ∈ itemsOfBody type location entries → b.GivesOnce := by
  intro b hb
  induction entries with
  | nil =>
    unfold itemsOfBody at hb
    cases hb
  | cons e entries ih =>
    obtain ⟨k, v⟩ := e
    obtain ⟨hv, keyed⟩ := List.forall_mem_cons.1 keyed
    unfold itemsOfBody at hb
    rcases List.mem_append.1 hb with hb | hb
    · split at hb
      · cases List.mem_singleton.1 hb
      · rename_i key _
        rcases inner_or_attribute type key (location.child key) hv with inner | item
        · exact (inner _ hb : b.OfBody key).givesOnce
        · rw [item, List.mem_singleton] at hb
          unfold attributeItem at hb
          split at hb <;> cases hb
    · exact ih keyed hb

end Block

/-- Every block at the root of a document gives each such word once. -/
theorem Document.givesOnce_of_decode {text : String} {file : Option String} {d : Document}
    (decoded : decode text file = .ok d) : ∀ b ∈ d.blocks, b.GivesOnce := by
  unfold decode at decoded
  split at decoded
  · rename_i y hy
    have keyed := Yaml.keyed_of_read? hy
    unfold ofYaml at decoded
    split at decoded
    · cases decoded
      exact fun _ hb => nomatch hb
    · cases decoded
      intro b hb
      obtain ⟨_ | b' | r, hi, found⟩ := List.mem_filterMap.1 hb <;> cases found
      cases keyed with
      | mapping _ _ values => exact Block.inner_itemsOfBody "" ⟨file, ""⟩ values b hi
    · cases decoded
  · cases decoded

end PipelineResolution
