import PipelineResolution.Proofs.Step.Addressing
import PipelineResolution.Proofs.Value

/-!
# Fields read back from JSON

Data that fits its JSON is read back as equal data, and fields that are read one after the other do
not disturb each other. Only a null is lost: it stands for a field that is not set.
-/
namespace PipelineResolution

/-- What is written item by item is read back item by item. -/
theorem mapM_map_of_forall_mem {α β : Type} {write : α → β} {read : β → Option α} {xs : List α}
    (inverse : ∀ x ∈ xs, read (write x) = some x) : (xs.map write).mapM read = some xs := by
  induction xs with
  | nil => rfl
  | cons x xs ih =>
    obtain ⟨first, rest⟩ := List.forall_mem_cons.1 inverse
    rw [List.map_cons, List.mapM_cons, first, ih rest]
    rfl

theorem mapM_map_of_inverse {α β : Type} {write : α → β} {read : β → Option α}
    (inverse : ∀ x, read (write x) = some x) (xs : List α) :
    (xs.map write).mapM read = some xs :=
  mapM_map_of_forall_mem fun x _ => inverse x

theorem Text.isSigned_of_word? {cs : List Char} {n : Int} (h : word? cs = some n) :
    Word.isSigned n = true := by
  have checked {x : Option Int}
      (h : (x >>= fun n => if Word.isSigned n then some n else none) = some n) :
      Word.isSigned n = true := by
    obtain ⟨m, -, h⟩ := Option.bind_eq_some_iff.1 h
    split at h
    · cases h
      assumption
    · cases h
  unfold word? at h
  dsimp only at h
  split at h <;> exact checked h

namespace Value

theorem isSigned_of_word? {v : Value} {n : Int} (h : v.word? = some n) : Word.isSigned n = true := by
  cases v with
  | number x =>
    simp only [word?, wordOf] at h
    split at h
    · split at h
      · cases h
        have positive : 0 < Word.count 63 := Nat.two_pow_pos 63
        simp only [Word.isSigned, Bool.and_eq_true, decide_eq_true_eq]
        omega
      · cases h
    · cases h
  | null | bool | string | list | map => cases h

theorem beq_list : ∀ vs ws : List Value, (vs == ws) = listEquals vs ws
  | [], [] | [], _ :: _ | _ :: _, [] => rfl
  | v :: vs, w :: ws => congrArg (v.equals w && ·) (beq_list vs ws)

theorem beq_entries : ∀ vs ws : Dict Value, (vs == ws) = entriesEqual vs ws
  | [], [] | [], _ :: _ | _ :: _, [] => rfl
  | (k, v) :: vs, (l, w) :: ws => congrArg (k == l && v.equals w && ·) (beq_entries vs ws)

theorem listToJson_eq_map : ∀ vs : List Value, listToJson vs = vs.map toJson
  | [] => rfl
  | v :: vs => congrArg (v.toJson :: ·) (listToJson_eq_map vs)

theorem entriesToJson_eq_mapValues : ∀ d : Dict Value, entriesToJson d = d.mapValues toJson
  | [] => rfl
  | (k, v) :: d => congrArg ((k, v.toJson) :: ·) (entriesToJson_eq_mapValues d)

theorem listOfJson_eq_map : ∀ js : List Json, listOfJson js = js.map ofJson
  | [] => rfl
  | j :: js => congrArg (ofJson j :: ·) (listOfJson_eq_map js)

theorem entriesOfJson_eq_mapValues : ∀ js : Dict Json, entriesOfJson js = js.mapValues ofJson
  | [] => rfl
  | (k, j) :: js => congrArg ((k, ofJson j) :: ·) (entriesOfJson_eq_mapValues js)

theorem toJson_eq_null {v : Value} (finite : v.isFinite = true) :
    v.toJson = .null ↔ v.isNull = true := by
  cases v with
  | null => exact ⟨fun _ => rfl, fun _ => rfl⟩
  | number n =>
    have finite : n.isFinite = true := finite
    refine ⟨fun h => ?_, nofun⟩
    simp only [toJson, numberToJson, finite, if_true] at h
    split at h <;> cases h
  | bool | string | list | map => exact ⟨nofun, nofun⟩

end Value

namespace AttributeType

instance : (t : AttributeType) → BEq t.Data
  | .text => inferInstanceAs (BEq String)
  | .flag => inferInstanceAs (BEq Bool)
  | .integer => inferInstanceAs (BEq Int)
  | .textList => inferInstanceAs (BEq (List String))
  | .textMap => inferInstanceAs (BEq (Dict String))
  | .list => inferInstanceAs (BEq (List Value))
  | .map => inferInstanceAs (BEq (Dict Value))
  | .any | .duration => inferInstanceAs (BEq Value)

/-- Data that JSON can hold: integers of a signed word, and values whose numbers are finite. -/
def Expressible : (t : AttributeType) → t.Data → Prop
  | .integer, (n : Int) => Word.isSigned n = true
  | .list, (items : List Value) => Value.listIsFinite items = true
  | .map, (entries : Dict Value) => Value.entriesAreFinite entries = true
  | .any, (v : Value) | .duration, (v : Value) => v.isFinite = true
  | .text, _ | .flag, _ | .textList, _ | .textMap, _ => True

theorem mapM_text? (ss : List String) :
    (Value.listToJson (ss.map .string)).mapM Json.text? = some ss := by
  rw [Value.listToJson_eq_map, List.map_map]
  refine mapM_map_of_inverse (fun s => ?_) ss
  rfl

theorem mapM_entryText? (d : Dict String) :
    (Value.entriesToJson (d.mapValues .string)).mapM
      (fun (k, item) => item.text?.map fun s => (k, s)) = some d := by
  rw [Value.entriesToJson_eq_mapValues, Dict.mapValues, Dict.mapValues, List.map_map]
  refine mapM_map_of_inverse (fun e => ?_) d
  rfl

/-- Data is read back from its JSON as equal data. -/
theorem exists_ofJson?_toJson {t : AttributeType} {d : t.Data} (h : t.Expressible d) :
    ∃ d', t.ofJson? (t.toJson d) = some d' ∧ (d' == d) = true := by
  cases t with
  | text => exact ⟨d, rfl, beq_self_eq_true (α := String) d⟩
  | flag => exact ⟨d, rfl, beq_self_eq_true (α := Bool) d⟩
  | integer => exact ⟨d, if_pos h, beq_self_eq_true (α := Int) d⟩
  | textList => exact ⟨d, mapM_text? d, beq_self_eq_true (α := List String) d⟩
  | textMap => exact ⟨d, mapM_entryText? d, beq_self_eq_true (α := Dict String) d⟩
  | list =>
    refine ⟨(Value.listToJson d).map Value.ofJson, rfl, (Value.beq_list _ d).trans ?_⟩
    rw [← Value.listOfJson_eq_map]
    exact Value.listEquals_listOfJson d h
  | map =>
    refine ⟨Dict.mapValues Value.ofJson (Value.entriesToJson d), rfl,
      (Value.beq_entries _ d).trans ?_⟩
    rw [← Value.entriesOfJson_eq_mapValues]
    exact Value.entriesEqual_entriesOfJson d h
  | any | duration => exact ⟨_, rfl, Value.equals_ofJson_toJson d h⟩

theorem read_of_convert {t : AttributeType} {name : String} {v : Value} {d : t.Data}
    (h : t.convert name v = .ok d) : t.read v = .ok d := by
  unfold convert at h
  cases hr : t.read v with
  | error found =>
    rw [hr] at h
    cases h
  | ok d' =>
    rw [hr] at h
    cases h
    rfl

/-- An integer that is read from a number or from a text is a signed word. -/
theorem isSigned_of_read {v : Value} {n : Int} (h : integer.read v = .ok n) :
    Word.isSigned n = true := by
  conv at h => lhs; whnf
  cases hn : v.word? <|> (v.text? >>= fun s => Text.word? (Text.trimChars s.toList)) with
  | none =>
    rw [hn] at h
    cases h
  | some n =>
    rw [hn] at h
    cases h
    rcases Option.or_eq_some_iff.1 (Option.orElse_eq_or.symm.trans hn) with number | ⟨-, text⟩
    · exact Value.isSigned_of_word? number
    · obtain ⟨s, -, word⟩ := Option.bind_eq_some_iff.1 text
      exact Text.isSigned_of_word? word

/-- The data in a value whose numbers are finite can be held in JSON. -/
theorem expressible_of_convert {t : AttributeType} {name : String} {v : Value} {d : t.Data}
    (h : t.convert name v = .ok d) (finite : v.isFinite = true) : t.Expressible d := by
  have read := read_of_convert h
  cases t with
  | text | flag | textList | textMap => trivial
  | integer => exact isSigned_of_read read
  | list | map | any | duration => cases v <;> cases read <;> exact finite

/-- Only a null is written as one. -/
theorem toJson_eq_null {t : AttributeType} {d : t.Data} (h : t.Expressible d) :
    t.toJson d = .null ↔ (t.toValue d).isNull = true := by
  cases t with
  | any | duration => exact Value.toJson_eq_null h
  | text | flag | integer | textList | textMap | list | map => exact ⟨nofun, nofun⟩

end AttributeType

namespace Field
variable {P : Type} {fields : List (Field P)} {f : Field P} {p q start : P} {record : Dict Json}

/-- Whether a field is set to null. -/
def holdsNull (f : Field P) (p : P) : Bool := (f.get p).any fun d => (f.type.toValue d).isNull

/-- What reading a field of a record does to a structure. -/
def readInto? (record : Dict Json) (p : P) (f : Field P) : Option P :=
  match record.get? f.name with
  | none | some .null => some p
  | some item => (f.type.ofJson? item).map (f.put · p)

theorem ofJson?_eq_foldlM (fields : List (Field P)) (record : Dict Json) (p : P) :
    ofJson? fields record p = fields.foldlM (readInto? record) p := rfl

/-- A field is read back as it was, unless it was set to null. -/
theorem exists_readInto? (lawful : f.Lawful)
    (found : record.get? f.name = (f.get p).map f.type.toJson)
    (expressible : ∀ d, f.get p = some d → f.type.Expressible d) (fresh : f.get start = none) :
    ∃ q, readInto? record start f = some q ∧ (f.get q == f.get p) = !f.holdsNull p ∧
      (q = start ∨ ∃ d, q = f.put d start) := by
  unfold readInto? holdsNull
  rw [found]
  cases hp : f.get p with
  | none => exact ⟨start, rfl, by rw [fresh]; rfl, .inl rfl⟩
  | some d =>
    have fits := expressible d hp
    by_cases null : (f.type.toValue d).isNull = true
    · rw [Option.map_some, (AttributeType.toJson_eq_null fits).2 null]
      exact ⟨start, rfl, by rw [fresh, Option.any_some, null]; rfl, .inl rfl⟩
    · obtain ⟨d', hd, same⟩ := AttributeType.exists_ofJson?_toJson fits
      have written : f.type.toJson d ≠ .null :=
        fun h => null ((AttributeType.toJson_eq_null fits).1 h)
      refine ⟨f.put d' start, ?_, ?_, .inr ⟨d', rfl⟩⟩
      · rw [Option.map_some]
        split
        · rename_i h
          cases h
        · rename_i h
          exact absurd (Option.some.inj h) written
        · rename_i item _ h
          obtain rfl := Option.some.inj h
          rw [hd, Option.map_some]
      · rw [lawful.get_put, Option.any_some, Bool.eq_false_iff.2 null]
        exact same

/-- Fields are read back as they were, unless they were set to null, and nothing else is changed. -/
theorem exists_ofJson? (independent : Independent fields)
    (found : ∀ f ∈ fields, record.get? f.name = (f.get p).map f.type.toJson)
    (expressible : ∀ f ∈ fields, ∀ d, f.get p = some d → f.type.Expressible d)
    (fresh : ∀ f ∈ fields, f.get start = none) :
    ∃ q, ofJson? fields record start = some q ∧
      (∀ f ∈ fields, (f.get q == f.get p) = !f.holdsNull p) ∧
      ∀ {α : Type} (view : P → α), (∀ f ∈ fields, ∀ d r, view (f.put d r) = view r) →
        view q = view start := by
  rw [ofJson?_eq_foldlM]
  induction fields generalizing start with
  | nil => exact ⟨start, rfl, List.forall_mem_nil _, fun _ _ => rfl⟩
  | cons f fs ih =>
    obtain ⟨lawful, apart⟩ := independent
    obtain ⟨lawful_f, lawful⟩ := List.forall_mem_cons.1 lawful
    obtain ⟨apart_f, apart⟩ := List.pairwise_cons.1 apart
    obtain ⟨found_f, found⟩ := List.forall_mem_cons.1 found
    obtain ⟨expressible_f, expressible⟩ := List.forall_mem_cons.1 expressible
    obtain ⟨fresh_f, fresh⟩ := List.forall_mem_cons.1 fresh
    obtain ⟨r, read, same, moved⟩ := exists_readInto? lawful_f found_f expressible_f fresh_f
    have unmoved {α : Type} {view : P → α} (h : ∀ d r, view (f.put d r) = view r) :
        view r = view start := by
      rcases moved with rfl | ⟨d, rfl⟩
      · rfl
      · exact h d start
    obtain ⟨q, rest, back, kept⟩ := ih ⟨lawful, apart⟩ found expressible
      fun g hg => (unmoved (apart_f g hg).get_right).trans (fresh g hg)
    refine ⟨q, ?_, List.forall_mem_cons.2 ⟨?_, back⟩, fun view h => ?_⟩
    · rw [List.foldlM_cons, read]
      exact rest
    · rw [kept f.get fun g hg => (apart_f g hg).get_left]
      exact same
    · obtain ⟨first, others⟩ := List.forall_mem_cons.1 h
      exact (kept view others).trans (unmoved first)

/-- A field is written under its name exactly if it is set. -/
theorem mem_toJson (named : ∀ f ∈ fields, ofName? fields f.name = some f) (hf : f ∈ fields)
    {j : Json} :
    (f.name, j) ∈ toJson fields p ↔ (f.get p).map f.type.toJson = some j := by
  simp only [toJson, List.mem_filterMap, Option.map_eq_some_iff, Prod.mk.injEq]
  constructor
  · rintro ⟨g, hg, d, hd, name, rfl⟩
    obtain rfl : g = f := Option.some.inj ((named g hg).symm.trans (name ▸ named f hf))
    exact ⟨d, hd, rfl⟩
  · rintro ⟨d, hd, rfl⟩
    exact ⟨f, hf, d, hd, rfl, rfl⟩

theorem keys_toJson_sublist (fields : List (Field P)) (p : P) :
    ((toJson fields p).map Prod.fst).Sublist (names fields) := by
  induction fields with
  | nil => exact .slnil
  | cons f fs ih =>
    simp only [toJson, List.filterMap_cons] at ih ⊢
    cases f.get p with
    | none => exact ih.cons _
    | some d => exact ih.cons_cons _

end Field
end PipelineResolution
