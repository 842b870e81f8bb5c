import PipelineResolution.Proofs.Expression.Completeness
import PipelineResolution.Proofs.Number.Shortest
import PipelineResolution.Proofs.Number.Texts
import PipelineResolution.Proofs.Step.ReadBack

/-!
# Interpolated and displayed values

A value has two texts: the one that a template puts in its place and the one that it is shown with,
which is also what an attribute for texts takes. They are the same for everything but numbers that
need more digits than their shortest decimal has, numbers beyond the words of an expression, and
lists and maps with something in them: a template spreads these over lines.
-/
namespace PipelineResolution

namespace Value
variable {x : Number} {k : Int}

theorem display_zero (h : x.Denotes 0) : (Value.number x).display = "0" := by
  obtain ⟨negative, representable, rfl, -⟩ := h.exists_eq
  rw [display, if_pos]
  simp [Number.isZero]

theorem display_number (h : x.Denotes k) (nonzero : k ≠ 0) : (Value.number x).display =
    (if k < 0 then "-" else "") ++
      (Number.shortest (k.natAbs * quantaPerUnit)).render .positional := by
  rw [display, if_neg, Number.render_of_denotes h nonzero]
  obtain ⟨negative, representable, rfl, -⟩ := h.exists_eq
  simp only [Number.isZero, beq_iff_eq]
  exact mul_quantaPerUnit_ne_zero (Int.natAbs_pos.2 nonzero)

end Value

namespace Datum
variable {x : Number} {k : Int}

theorem ofValue_number (h : x.Denotes k) : ofValue (.number x) = .number
    (if -2 ^ 63 ≤ k ∧ k < 2 ^ 64 then .ofInt k else .float x) := by
  have finite : x.isFinite = true := by
    obtain ⟨_, _, rfl, _⟩ := h.exists_eq
    rfl
  have signed : (Word.count 63 : Int) = 2 ^ 63 := by decide
  have unsigned : (Word.count 64 : Int) = 2 ^ 64 := by decide
  rw [ofValue, if_pos finite, Numeral.ofNumber, Number.toInt?_eq_some.2 h]
  simp only [signed, unsigned]

theorem interpolate_number (n : Numeral) : (Datum.number n).interpolate = n.display := by
  rw [interpolate, display, render]
  nofun

theorem interpolate_word (h : x.Denotes k) (word : -2 ^ 63 ≤ k ∧ k < 2 ^ 64) :
    (ofValue (.number x)).interpolate = toString k := by
  rw [ofValue_number h, if_pos word, interpolate_number, Numeral.ofInt]
  split
  · rfl
  · rename_i natural
    obtain ⟨n, rfl⟩ := Int.eq_ofNat_of_zero_le (Int.not_lt.1 natural)
    rfl

theorem interpolate_float (h : x.Denotes k) (beyond : ¬(-2 ^ 63 ≤ k ∧ k < 2 ^ 64)) :
    (ofValue (.number x)).interpolate = (if k < 0 then "-" else "") ++
      (Number.shortest (k.natAbs * quantaPerUnit)).render .compact := by
  have nonzero : k ≠ 0 := by omega
  rw [ofValue_number h, if_neg beyond, interpolate_number, Numeral.display,
    Number.render_of_denotes h nonzero]

end Datum

/-- Values that a template and a message give the same text. -/
inductive Value.ReadsAlike : Value → Prop
  | null : ReadsAlike .null
  | bool (b : Bool) : ReadsAlike (.bool b)
  | string (s : String) : ReadsAlike (.string s)
  | emptyList : ReadsAlike (.list [])
  | emptyMap : ReadsAlike (.map [])
  /-- An integer of a word whose shortest decimal is the integer itself. -/
  | integer {x : Number} {k : Int} (denoted : x.Denotes k) (word : -2 ^ 63 ≤ k ∧ k < 2 ^ 64)
      (exact : (Number.shortest (k.natAbs * quantaPerUnit)).Denotes k.natAbs) :
      ReadsAlike (.number x)

theorem Value.readsAlike_number_iff {x : Number} {k : Int} (h : x.Denotes k) :
    (Datum.ofValue (.number x)).interpolate = (Value.number x).display ↔
      ReadsAlike (.number x) := by
  constructor
  · intro same
    by_cases word : -2 ^ 63 ≤ k ∧ k < 2 ^ 64
    · refine .integer h word ?_
      by_cases zero : k = 0
      · subst zero
        exact Number.shortest_denotes (by decide)
      · rw [Datum.interpolate_word h word, display_number h zero, toString_eq_sign,
          String.append_right_inj] at same
        exact (Decimal.render_positional_eq (Int.natAbs_pos.2 zero)).1 same.symm
    · have nonzero : k ≠ 0 := by omega
      have large : 10 ^ 18 ≤ k.natAbs := by omega
      rw [Datum.interpolate_float h word, display_number h nonzero,
        String.append_right_inj] at same
      exact absurd same (Decimal.render_compact_ne (Number.exponent_shortest large))
  · intro alike
    cases alike with
    | @integer _ l denoted word exact =>
      by_cases zero : l = 0
      · subst zero
        rw [Datum.interpolate_word denoted word, display_zero denoted]
        rfl
      · rw [Datum.interpolate_word denoted word, display_number denoted zero, toString_eq_sign,
          (Decimal.render_positional_eq (Int.natAbs_pos.2 zero)).2 exact]

/-! ## Lists and maps -/

namespace Json
variable {s t : String}

/-- The text does not begin with the end of a line. -/
def StartsInLine (s : String) : Prop := s.toList.head? ≠ some '\n'

instance (s : String) : Decidable (StartsInLine s) := inferInstanceAs (Decidable (_ ≠ _))

theorem StartsInLine.append (hs : StartsInLine s) (ht : StartsInLine t) :
    StartsInLine (s ++ t) := by
  unfold StartsInLine at *
  rw [String.toList_append, List.head?_append]
  cases first : s.toList.head? with
  | none => exact ht
  | some c =>
    rw [first] at hs
    exact hs

/-- What follows a text with a character does not matter. -/
theorem StartsInLine.append_of_ne_nil (hs : StartsInLine s) (filled : s.toList ≠ []) (t : String) :
    StartsInLine (s ++ t) := by
  unfold StartsInLine at *
  rw [String.toList_append, List.head?_append_of_ne_nil _ filled]
  exact hs

theorem startsInLine_of_notMem (h : '\n' ∉ s.toList) : StartsInLine s :=
  fun first => h (List.mem_of_mem_head? first)

theorem startsInLine_quote (s : String) : StartsInLine (quote s) := by
  rw [quote, String.append_assoc]
  exact StartsInLine.append_of_ne_nil (by decide) (by decide) _

theorem startsInLine_render (j : Json) : StartsInLine j.render := by
  cases j with
  | null => decide
  | bool b => cases b <;> decide
  | int n =>
    rw [render]
    exact startsInLine_of_notMem (notMem_toString (by decide) (by decide) n)
  | float x =>
    rw [render]
    split
    · exact startsInLine_of_notMem (notMem_render (by decide) (by decide) (by decide) (by decide)
        (by decide) (by decide) x)
    · decide
  | string s => exact startsInLine_quote s
  | array items =>
    rw [render, String.append_assoc]
    exact StartsInLine.append_of_ne_nil (by decide) (by decide) _
  | object fields =>
    rw [render, String.append_assoc]
    exact StartsInLine.append_of_ne_nil (by decide) (by decide) _

theorem startsInLine_renderItems (items : List Json) : StartsInLine (renderItems items) := by
  cases items with
  | nil => decide
  | cons item items =>
    cases items with
    | nil => exact startsInLine_render item
    | cons other items =>
      have text : renderItems (item :: other :: items) =
          item.render ++ ("," ++ renderItems (other :: items)) := String.append_assoc
      rw [text]
      exact (startsInLine_render item).append (.append_of_ne_nil (by decide) (by decide) _)

theorem startsInLine_renderFields (fields : List (String × Json)) :
    StartsInLine (renderFields fields) := by
  cases fields with
  | nil => decide
  | cons field fields =>
    cases fields with
    | nil =>
      rw [renderFields, String.append_assoc]
      exact (startsInLine_quote _).append (StartsInLine.append_of_ne_nil (by decide) (by decide) _)
    | cons other fields =>
      have text : renderFields (field :: other :: fields) = quote field.1 ++
          (":" ++ (field.2.render ++ ("," ++ renderFields (other :: fields)))) := by
        rw [← String.append_assoc, ← String.append_assoc, ← String.append_assoc]
        rfl
      rw [text]
      exact (startsInLine_quote _).append (.append_of_ne_nil (by decide) (by decide) _)

end Json

/-- A text behind an opening bracket that goes on in the line is no text that does not. -/
theorem Json.append_ne_of_startsInLine {bracket s t opening : String} (hs : StartsInLine s)
    (spread : opening = bracket ++ "\n") : opening ++ t ≠ bracket ++ s := by
  intro same
  rw [spread, String.append_assoc, String.append_right_inj] at same
  subst same
  exact hs (by simp)

namespace Datum

theorem exists_interpolate_list (d : Datum) (ds : List Datum) :
    ∃ t, (Datum.list (d :: ds)).interpolate = "[\n" ++ t := by
  rw [interpolate, display, render, String.append_assoc, String.append_assoc]
  · exact ⟨_, rfl⟩
  all_goals nofun

theorem exists_interpolate_object (e : String × Datum) (es : List (String × Datum)) :
    ∃ t, (Datum.object (e :: es)).interpolate = "\x7b\n" ++ t := by
  rw [interpolate, display, render, String.append_assoc, String.append_assoc]
  · exact ⟨_, rfl⟩
  all_goals nofun

end Datum

namespace Value

theorem display_list (items : List Value) : (Value.list items).display =
    "[" ++ (Json.renderItems (listToJson items) ++ "]") := by
  rw [display, toJson, Json.render, String.append_assoc]
  all_goals simp

theorem display_map (entries : List (String × Value)) : (Value.map entries).display =
    "\x7b" ++ (Json.renderFields (entriesToJson entries) ++ "\x7d") := by
  rw [display, toJson, Json.render, String.append_assoc]
  all_goals simp

/-- A template spreads the items of a list over lines, and a message does not. -/
theorem interpolate_list_ne (v : Value) (vs : List Value) :
    (Datum.ofValue (.list (v :: vs))).interpolate ≠ (Value.list (v :: vs)).display := by
  obtain ⟨t, spread⟩ := Datum.exists_interpolate_list (.ofValue v) (Datum.listOfValues vs)
  rw [Datum.ofValue, Datum.listOfValues, spread, display_list]
  refine Json.append_ne_of_startsInLine ?_ (by decide)
  exact (Json.startsInLine_renderItems _).append (by decide)

theorem interpolate_map_ne (e : String × Value) (es : List (String × Value)) :
    (Datum.ofValue (.map (e :: es))).interpolate ≠ (Value.map (e :: es)).display := by
  obtain ⟨t, spread⟩ :=
    Datum.exists_interpolate_object (e.1, .ofValue e.2) (Datum.entriesOfValues es)
  rw [Datum.ofValue, Datum.entriesOfValues, spread, display_map]
  refine Json.append_ne_of_startsInLine ?_ (by decide)
  exact (Json.startsInLine_renderFields _).append (by decide)

/-- Whether a number at the top of a value denotes an integer. -/
def IsWhole : Value → Prop
  | .number x => ∃ k, x.Denotes k
  | _ => True

theorem interpolate_eq_display_iff {v : Value} (whole : v.IsWhole) :
    (Datum.ofValue v).interpolate = v.display ↔ v.ReadsAlike := by
  cases v with
  | null => exact ⟨fun _ => .null, fun _ => rfl⟩
  | bool b => exact ⟨fun _ => .bool b, fun _ => rfl⟩
  | string s => exact ⟨fun _ => .string s, fun _ => rfl⟩
  | number x =>
    obtain ⟨k, denoted⟩ := whole
    exact readsAlike_number_iff denoted
  | list items =>
    cases items with
    | nil => exact ⟨fun _ => .emptyList, fun _ => rfl⟩
    | cons v vs => exact ⟨fun same => absurd same (interpolate_list_ne v vs), nofun⟩
  | map entries =>
    cases entries with
    | nil => exact ⟨fun _ => .emptyMap, fun _ => rfl⟩
    | cons e es => exact ⟨fun same => absurd same (interpolate_map_ne e es), nofun⟩

end Value

namespace AttributeType

/-- An attribute for texts takes what a value is shown as. -/
theorem eq_display_of_read {v : Value} {s : String} (h : text.read v = .ok s) : s = v.display := by
  cases v <;> cases h <;> rfl

theorem eq_display_of_read_textMap {entries : List (String × Value)} {d : Dict String}
    (h : textMap.read (.map entries) = .ok d) : d = entries.map fun e => (e.1, e.2.display) := by
  induction entries generalizing d with
  | nil =>
    cases h
    rfl
  | cons e entries ih =>
    change ((e :: entries).mapM fun e => (text.read e.2).map fun s => (e.1, s)) = .ok d at h
    rw [List.mapM_cons] at h
    obtain ⟨first, read, h⟩ := bind_eq_ok.1 h
    obtain ⟨rest, others, h⟩ := bind_eq_ok.1 h
    obtain ⟨s, shown, rfl⟩ : ∃ s, text.read e.2 = .ok s ∧ (e.1, s) = first := by
      cases hr : text.read e.2 with
      | error w => rw [hr] at read; cases read
      | ok s => rw [hr] at read; cases read; exact ⟨s, rfl, rfl⟩
    cases h
    rw [eq_display_of_read shown, ih others]
    rfl

end AttributeType

namespace Expression

/-- A template with one name in it. -/
def namedText : String := "x=$\x7ba\x7d"

def namedTemplate : Expression :=
  .template [.text "x=", .interpolation ⟨false, false⟩ (.variable "a")]

theorem parseTemplate_namedText : parseTemplate namedText = .ok namedTemplate := by
  with_unfolding_all rfl

theorem evaluate_namedTemplate {env : Environment} (sorted : env.bindings.Sorted) {v : Value}
    (bound : env.get? "a" = some v) :
    namedTemplate.evaluate env = .ok (.string ("x=" ++ (Datum.ofValue v).interpolate)) := by
  have found : env.find? "a" = some v := by
    rw [← bound]
    exact Environment.find?_eq_get? sorted fun _ _ =>
      ⟨Text.eq_of_identifierOf (by decide), fun h => by rw [h]; decide⟩
  have seen : env.scope.get? "a" = some (Datum.ofValue v) := by
    rw [Environment.get?_scope, found]
    rfl
  have roots : ∀ name ∈ namedTemplate.roots, env.binds name = true := by
    intro name hn
    have root : namedTemplate.roots = ["a"] := by decide
    rw [root] at hn
    rw [List.mem_singleton.1 hn]
    exact Environment.binds_iff.2 ⟨v, bound⟩
  have filled : Part.evalList env.scope ⟨false, false⟩
      [.text "x=", .interpolation ⟨false, false⟩ (.variable "a")] =
        .ok ("x=" ++ (Datum.ofValue v).interpolate) := by
    simp [Part.evalList, Part.eval, Part.strip, Term.eval, seen, bind, Except.bind, pure,
      Except.pure]
  rw [evaluate_of_bound roots, namedTemplate, eval, filled]

/-- A template gives a value the text that it is shown with, and that attributes for texts take,
just when the value reads alike in both. Integers of fewer than 54 bits do. -/
theorem interpolation_displays {env : Environment} (sorted : env.bindings.Sorted) {v : Value}
    (bound : env.get? "a" = some v) (whole : v.IsWhole) :
    (∃ e, parseTemplate "x=$\x7ba\x7d" = .ok e ∧ ∃ s, e.evaluate env = .ok (.string s) ∧
      (s = "x=" ++ v.display ↔ v.ReadsAlike)) ∧
    (∀ x k, v = .number x → x.Denotes k → k.natAbs < 2 ^ 53 → v.ReadsAlike) ∧
    (∀ name, (∃ x, v = .number x) ∨ (∃ b, v = .bool b) →
      AttributeType.text.convert name v = .ok v.display) ∧
    ∀ name entries (d : Dict String), AttributeType.textMap.convert name (.map entries) = .ok d →
      ∀ key, (key, v) ∈ entries → (key, v.display) ∈ d := by
  refine ⟨⟨_, parseTemplate_namedText, _, evaluate_namedTemplate sorted bound, ?_⟩, ?_, ?_, ?_⟩
  · rw [String.append_right_inj]
    exact Value.interpolate_eq_display_iff whole
  · rintro x k rfl denoted small
    exact .integer denoted (by omega) (Number.shortest_denotes small)
  · rintro name (⟨x, rfl⟩ | ⟨b, rfl⟩)
    · rfl
    · rfl
  · intro name entries d accepted key mem
    rw [AttributeType.eq_display_of_read_textMap (AttributeType.read_of_convert accepted)]
    exact List.mem_map_of_mem mem

/-- A negative number of 53 bits. -/
theorem interpolation_displays_number : ∃ e, parseTemplate "x=$\x7ba\x7d" = .ok e ∧
    e.evaluate ⟨[("a", .ofInt (1 - 2 ^ 53))]⟩ =
      .ok (.string ("x=" ++ (Value.ofInt (1 - 2 ^ 53)).display)) := by
  have denoted : (Number.ofInt (1 - 2 ^ 53)).Denotes (1 - 2 ^ 53) :=
    Number.toInt?_eq_some.1 (by decide +kernel)
  obtain ⟨⟨e, parsed, s, evaluated, same⟩, small, -, -⟩ :=
    @interpolation_displays ⟨[("a", .ofInt (1 - 2 ^ 53))]⟩ (by decide) _ rfl ⟨_, denoted⟩
  have alike := small _ _ rfl denoted (by decide)
  exact ⟨e, parsed, by rw [evaluated, same.2 alike]⟩

/-- The items of a list stand on lines of their own in a template. -/
theorem not_interpolation_displays_list :
    ¬∀ (env : Environment) (v : Value), env.bindings.Sorted → env.get? "a" = some v → v.IsWhole →
      namedTemplate.evaluate env = .ok (.string ("x=" ++ v.display)) := by
  intro h
  have shown := h ⟨[("a", .list [.string "a", .string "b"])]⟩ _ (by decide) rfl trivial
  rw [evaluate_namedTemplate (by decide) rfl] at shown
  have same := String.append_right_inj "x=" |>.1 (Value.string.inj (Except.ok.inj shown))
  exact Value.interpolate_list_ne _ _ same

end Expression

end PipelineResolution
