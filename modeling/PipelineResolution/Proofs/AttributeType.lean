import PipelineResolution.AttributeType
import PipelineResolution.Proofs.Failing

/-!
# What does not fit an attribute

Reading a value for an attribute stops at what does not fit: the value as a whole when it is of
another type, or else the first element of a list of texts or of a mapping of texts that is none.
-/
namespace PipelineResolution
namespace AttributeType

/-- Whether a value is of a type, elements apart. -/
def admits : AttributeType → Value → Bool
  | .text, .string _ | .text, .number _ | .text, .bool _ => true
  | .flag, .bool _ | .flag, .string "true" | .flag, .string "false" => true
  | .integer, v => (v.word? <|> (v.text? >>= fun s => Text.word? (Text.trimChars s.toList))).isSome
  | .textList, .string _ | .textList, .list _ => true
  | .textMap, .map _ | .map, .map _ => true
  | .list, .list _ => true
  | .any, _ => true
  | .duration, .number _ | .duration, .string _ => true
  | _, _ => false

/-- What of a value does not fit a type. -/
inductive Offends : AttributeType → Value → Value → Prop where
  | whole {t : AttributeType} {v : Value} (other : t.admits v = false) : Offends t v v
  | item {before after : List Value} {w : Value} (texts : ∀ u ∈ before, u.text?.isSome)
      (other : w.text? = none) : Offends .textList (.list (before ++ w :: after)) w
  | entry {before after : List (String × Value)} {key : String} {w : Value}
      (texts : ∀ e ∈ before, text.admits e.2 = true) (other : text.admits w = false) :
      Offends .textMap (.map (before ++ (key, w) :: after)) w

variable {t : AttributeType} {v w : Value}

theorem read_textList_eq_error {items : List Value} : textList.read (.list items) = .error w ↔
    ∃ before after, items = before ++ w :: after ∧ (∀ u ∈ before, u.text?.isSome) ∧
      w.text? = none := by
  refine mapM_eq_error.trans ?_
  constructor
  · rintro ⟨before, u, after, rfl, texts, other⟩
    cases u <;> cases other
    all_goals
      refine ⟨before, after, rfl, fun u hu => ?_, rfl⟩
      obtain ⟨s, hs⟩ := texts u hu
      cases u <;> cases hs
      rfl
  · rintro ⟨before, after, rfl, texts, other⟩
    refine ⟨before, w, after, rfl, fun u hu => ?_, ?_⟩
    · cases u with
      | string s => exact ⟨s, rfl⟩
      | _ => cases texts _ hu
    · cases w with
      | string => cases other
      | _ => rfl

theorem read_textMap_eq_error {entries : List (String × Value)} :
    textMap.read (.map entries) = .error w ↔ ∃ before key after,
      entries = before ++ (key, w) :: after ∧ (∀ e ∈ before, text.admits e.2 = true) ∧
        text.admits w = false := by
  refine mapM_eq_error.trans ?_
  constructor
  · rintro ⟨before, ⟨key, u⟩, after, rfl, texts, other⟩
    cases u <;> cases other
    all_goals
      refine ⟨before, key, after, rfl, fun ⟨k, u⟩ hu => ?_, rfl⟩
      obtain ⟨s, hs⟩ := texts _ hu
      cases u <;> cases hs
      all_goals rfl
  · rintro ⟨before, key, after, rfl, texts, other⟩
    refine ⟨before, (key, w), after, rfl, fun ⟨k, u⟩ hu => ?_, ?_⟩
    · have fits := texts _ hu
      cases u <;> cases fits
      all_goals exact ⟨_, rfl⟩
    · cases w <;> cases other
      all_goals rfl

theorem read_flag_eq_error : flag.read v = .error w ↔ flag.admits v = false ∧ v = w := by
  conv => lhs; lhs; whnf
  split
  · exact ⟨(nomatch ·), fun h => nomatch h.1⟩
  · exact ⟨(nomatch ·), fun h => nomatch h.1⟩
  · exact ⟨(nomatch ·), fun h => nomatch h.1⟩
  · have refused : flag.admits v = false := by
      unfold admits
      split <;> simp_all
    exact ⟨fun h => by cases h; exact ⟨refused, rfl⟩, fun h => h.2 ▸ rfl⟩

theorem read_integer_eq_error : integer.read v = .error w ↔ integer.admits v = false ∧ v = w := by
  conv => lhs; lhs; whnf
  dsimp only [admits]
  cases v.word? <|> (v.text? >>= fun s => Text.word? (Text.trimChars s.toList)) with
  | none => exact ⟨fun h => by cases h; exact ⟨rfl, rfl⟩, fun h => h.2 ▸ rfl⟩
  | some n => exact ⟨(nomatch ·), fun h => nomatch h.1⟩

/-- Reading stops at what does not fit. -/
theorem read_eq_error : t.read v = .error w ↔ t.Offends v w := by
  constructor
  · intro h
    cases t with
    | textList =>
      cases v with
      | list items =>
        obtain ⟨before, after, rfl, texts, other⟩ := read_textList_eq_error.1 h
        exact .item texts other
      | string => cases h
      | _ =>
        cases h
        exact .whole rfl
    | textMap =>
      cases v with
      | map entries =>
        obtain ⟨before, key, after, rfl, texts, other⟩ := read_textMap_eq_error.1 h
        exact .entry texts other
      | _ =>
        cases h
        exact .whole rfl
    | integer =>
      obtain ⟨other, rfl⟩ := read_integer_eq_error.1 h
      exact .whole other
    | flag =>
      obtain ⟨other, rfl⟩ := read_flag_eq_error.1 h
      exact .whole other
    | _ =>
      cases v <;> cases h
      all_goals exact .whole rfl
  · intro h
    cases h with
    | item texts other => exact read_textList_eq_error.2 ⟨_, _, rfl, texts, other⟩
    | entry texts other => exact read_textMap_eq_error.2 ⟨_, _, _, rfl, texts, other⟩
    | whole other =>
      cases t with
      | integer => exact read_integer_eq_error.2 ⟨other, rfl⟩
      | flag => exact read_flag_eq_error.2 ⟨other, rfl⟩
      | _ =>
        cases v <;> cases other
        all_goals rfl

end AttributeType
end PipelineResolution
