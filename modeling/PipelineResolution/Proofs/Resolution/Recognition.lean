import Mathlib.Data.List.Basic
import PipelineResolution.Proofs.Expression.Names
import PipelineResolution.Proofs.Expression.Stops
import PipelineResolution.Proofs.Number.Texts
import PipelineResolution.Proofs.Resolution.Dependencies

/-!
# Recognition by wording

An unknown root is told from the kind of its report or, where that is lost, from the wording. The
other reports quote keys, names and data of the document, and the messages may say more than that.
A report in which this spells the wording is taken for one on an unknown root; apart from that both
ways agree, whatever an evaluation stops at and however the messages are worded.
-/
namespace PipelineResolution

namespace Text

theorem isIdentifierRest_identifierOf (name : String) :
    ∀ c ∈ (identifierOf name).toList, isIdentifierRest c = true := by
  have spelled : ∀ c ∈ name.toList.map (fun c => if isIdentifierRest c then c else '_'),
      isIdentifierRest c = true := by
    intro c hc
    obtain ⟨d, -, rfl⟩ := List.mem_map.1 hc
    split
    · assumption
    · decide
  unfold identifierOf
  split
  · intro c hc
    obtain rfl : c = '_' := List.mem_singleton.1 hc
    decide
  · rename_i c s cut
    rw [cut] at spelled
    rw [String.toList_ofList]
    split
    · exact spelled
    · exact List.forall_mem_cons.2 ⟨by decide, spelled⟩

theorem IsIdentifier.quote_notMem {name : String} (h : IsIdentifier name) : '"' ∉ name.toList := by
  intro quote
  rw [← h] at quote
  exact absurd (isIdentifierRest_identifierOf name _ quote) (by decide)

/-- A word whose first character is not in the front stands behind it. -/
theorem exists_behind {c : Char} {a w r front t : List Char} (absent : c ∉ front)
    (h : a ++ (c :: w ++ r) = front ++ t) : ∃ a', t = a' ++ (c :: w ++ r) := by
  rcases List.append_eq_append_iff.1 h with ⟨v, split, behind⟩ | ⟨a', -, ht⟩
  · cases v with
    | nil => exact ⟨[], behind.symm⟩
    | cons d v =>
      obtain ⟨rfl, -⟩ := List.cons.inj behind
      exact absurd (split ▸ List.mem_append_right a List.mem_cons_self) absent
  · exact ⟨a', ht⟩

end Text

namespace Diagnostic
variable {s opening : String} {d : Diagnostic}

/-- A text that spells the start of the wording and later a quote. -/
def Imitates (s : String) : Prop :=
  ∃ a b c, s.toList = a ++ unknownVariableStart.toList ++ b ++ '"' :: c

/-- The name in the wording that a text spells. -/
def worded? (s : String) : Option String := do
  let (_, rest) ← Text.cut unknownVariableStart s
  let (name, _) ← Text.cut "\"" rest
  return name

theorem isSome_worded? : (worded? s).isSome ↔ Imitates s := by
  constructor
  · intro h
    unfold worded? at h
    cases start : Text.cut unknownVariableStart s with
    | none => simp [start] at h
    | some found =>
      obtain ⟨a, rest⟩ := found
      cases quote : Text.cut "\"" rest with
      | none => simp [start, quote] at h
      | some found =>
        obtain ⟨b, c⟩ := found
        refine ⟨a.toList, b.toList, c.toList, ?_⟩
        rw [Text.eq_of_cut start, Text.eq_of_cut quote]
        simp [List.append_assoc]
  · rintro ⟨a, b, c, spelled⟩
    obtain ⟨front, rest, start, ⟨more, suffix⟩⟩ :=
      Text.suffix_of_cutChars unknownVariableStart.toList a (b ++ '"' :: c)
    obtain ⟨name, last, quote, -⟩ := Text.suffix_of_cutChars ['"'] (more ++ b) c
    have rest_eq : more ++ b ++ ['"'] ++ c = rest := by rw [← suffix]; simp
    rw [rest_eq] at quote
    have outer : Text.cut unknownVariableStart s =
        some (String.ofList front, String.ofList rest) := by
      rw [Text.cut, spelled, List.append_assoc _ b, start, Option.map_some]
    have inner : Text.cut "\"" (String.ofList rest) =
        some (String.ofList name, String.ofList last) := by
      rw [Text.cut, show "\"".toList = ['"'] from rfl, String.toList_ofList, quote, Option.map_some]
    simp [worded?, outer, inner]

instance (s : String) : Decidable (Imitates s) := decidable_of_iff _ isSome_worded?

theorem not_imitates (plain : '"' ∉ s.toList) : ¬Imitates s := fun ⟨a, b, c, spelled⟩ =>
  plain (by simp [spelled])

theorem not_imitates_empty : ¬Imitates "" := not_imitates (by decide)

/-- What a report opens with is not taken for the wording. -/
theorem imitates_append (absent : 'T' ∉ opening.toList) : Imitates (opening ++ s) ↔ Imitates s := by
  have start : unknownVariableStart.toList = 'T' :: unknownVariableStart.toList.tail := by decide
  constructor
  · rintro ⟨a, b, c, spelled⟩
    rw [String.toList_append, List.append_assoc, List.append_assoc, start] at spelled
    obtain ⟨a', behind⟩ := Text.exists_behind absent spelled.symm
    refine ⟨a', b, c, ?_⟩
    rw [behind, ← start, List.append_assoc, List.append_assoc]
  · rintro ⟨a, b, c, spelled⟩
    exact ⟨opening.toList ++ a, b, c, by simp [spelled]⟩

/-- Both ways of telling an unknown root agree on a report, also where its kind is lost. -/
structure RecognisedAlike (d : Diagnostic) : Prop where
  typed : d.unknownSymbol? true = d.unknownSymbol? false
  erased : { d with kind := .other }.unknownSymbol? true = d.unknownSymbol? false

/-- The wording is found where it stands first. -/
theorem worded?_of_spelled {name : String} (more : String) (absent : 'T' ∉ opening.toList)
    (plain : '"' ∉ name.toList) :
    worded? (opening ++ (unknownVariableStart ++ (name ++ ("\"" ++ more)))) = some name := by
  have start : Text.cut unknownVariableStart
      (opening ++ (unknownVariableStart ++ (name ++ ("\"" ++ more)))) =
        some (opening, name ++ ("\"" ++ more)) := by
    have found := Text.cutChars_of_head_notMem absent unknownVariableStart.toList.tail
      (name ++ ("\"" ++ more)).toList
    rw [Text.cut, String.toList_append, String.toList_append]
    exact (congrArg _ found).trans (by simp)
  have quote : Text.cut "\"" (name ++ ("\"" ++ more)) = some (name, more) := by
    rw [Text.cut, String.toList_append, String.toList_append]
    exact (congrArg _ (Text.cutChars_of_notMem plain more.toList)).trans (by simp)
  rw [worded?, start]
  simp [quote]

theorem recognisedAlike_unknownVariable {name : String} (plain : '"' ∉ name.toList) :
    (unknownVariable name).RecognisedAlike := by
  have spelled : (unknownVariable name).detail =
      "" ++ (unknownVariableStart ++ (name ++ ("\"" ++ "."))) := by
    rw [String.empty_append, ← String.append_assoc]
    rfl
  have worded := worded?_of_spelled "." (show 'T' ∉ "".toList by decide) plain
  rw [← spelled] at worded
  exact ⟨rfl, worded⟩

/-- An untyped report is taken for an unknown root by its wording only. -/
theorem recognisedAlike_iff (other : d.kind = .other) :
    d.RecognisedAlike ↔ ¬Imitates d.detail := by
  have on : d.unknownSymbol? true = worded? d.detail := by simp [unknownSymbol?, other, worded?]
  have off : d.unknownSymbol? false = none := by simp [unknownSymbol?, other]
  rw [← isSome_worded?, Bool.not_eq_true, Option.isSome_eq_false_iff, Option.isNone_iff_eq_none]
  constructor
  · intro h
    rw [← on, h.typed, off]
  · intro h
    exact ⟨by rw [on, h, off], by rw [off]; exact h⟩

end Diagnostic

namespace EvalError

/-- What the report on an error opens with. -/
def opening : EvalError → String
  | .unknownVariable _ | .malformed => ""
  | .noSuchKey _ => "no such key: `"
  | .outOfBounds n => "index out of bounds: " ++ toString n
  | .unaryOperand op _ => "unary operator `" ++ op.symbol ++ "` is not applicable to `"
  | .binaryOperand op _ _ => "binary operator `" ++ op.symbol ++ "` is not applicable to `"
  | .unexpected _ _ => "unexpected value `"
  | .unknownFunction _ => "undefined function `"
  | .duplicateKey _ => "key `"

/-- What the report quotes, with all that is said after it: the wording may begin in a quotation and
end in the next, or in what is added. -/
def quotation (err : EvalError) (more : String) : String :=
  match err with
  | .unknownVariable _ => ""
  | .outOfBounds _ | .malformed => more
  | .noSuchKey key => key ++ "`" ++ more
  | .duplicateKey key => key ++ "` already exists" ++ more
  | .unknownFunction name => name ++ "`" ++ more
  | .unaryOperand _ operand => operand.display ++ "`" ++ more
  | .binaryOperand _ left right => left.display ++ "` and `" ++ right.display ++ "`" ++ more
  | .unexpected found expected => found.display ++ "`, expected " ++ expected ++ more

theorem detail_toDiagnostic (err : EvalError) (more : String)
    (other : ∀ name, err ≠ .unknownVariable name) :
    (err.toDiagnostic more).detail = err.opening ++ err.quotation more := by
  unfold toDiagnostic opening quotation
  cases err with
  | unknownVariable name => exact absurd rfl (other name)
  | _ => simp only [Diagnostic.error, String.append_assoc, String.empty_append]

theorem kind_toDiagnostic (err : EvalError) (more : String)
    (other : ∀ name, err ≠ .unknownVariable name) : (err.toDiagnostic more).kind = .other := by
  cases err with
  | unknownVariable name => exact absurd rfl (other name)
  | _ => rfl

theorem notMem_repr {c : Char} (other : c.isDigit = false) (n : Nat) : c ∉ (toString n).toList := by
  intro digit
  rw [Nat.toString_eq_repr, Nat.repr, String.toList_ofList] at digit
  rw [Nat.isDigit_of_mem_toDigits (by decide) (by decide) digit] at other
  cases other

theorem notMem_opening (err : EvalError) : 'T' ∉ err.opening.toList := by
  cases err with
  | unknownVariable _ | malformed => exact List.not_mem_nil
  | outOfBounds n => exact Text.notMem_append.2 ⟨by decide, notMem_repr (by decide) n⟩
  | unaryOperand op _ =>
    refine Text.notMem_append.2 ⟨Text.notMem_append.2 ⟨by decide, ?_⟩, by decide⟩
    cases op <;> decide
  | binaryOperand op _ _ =>
    refine Text.notMem_append.2 ⟨Text.notMem_append.2 ⟨by decide, ?_⟩, by decide⟩
    cases op <;> decide
  | noSuchKey _ => exact (by decide : 'T' ∉ "no such key: `".toList)
  | unexpected _ _ => exact (by decide : 'T' ∉ "unexpected value `".toList)
  | unknownFunction _ => exact (by decide : 'T' ∉ "undefined function `".toList)
  | duplicateKey _ => exact (by decide : 'T' ∉ "key `".toList)

end EvalError

namespace Stop

/-- The report says something that reads as one on an unknown root. -/
def Imitates (stop : Stop) : Prop := Diagnostic.Imitates (stop.error.quotation stop.more)

instance (stop : Stop) : Decidable stop.Imitates :=
  inferInstanceAs (Decidable (Diagnostic.Imitates _))

theorem recognisedAlike_iff (stop : Stop)
    (names : ∀ name, stop.error = .unknownVariable name → Text.IsIdentifier name) :
    stop.report.RecognisedAlike ↔ ¬stop.Imitates := by
  obtain ⟨err, more⟩ := stop
  by_cases unknown : ∃ name, err = .unknownVariable name
  · obtain ⟨name, rfl⟩ := unknown
    exact iff_of_true
      (Diagnostic.recognisedAlike_unknownVariable (names name rfl).quote_notMem)
      Diagnostic.not_imitates_empty
  · have other := not_exists.1 unknown
    rw [report, Diagnostic.recognisedAlike_iff (err.kind_toDiagnostic more other),
      err.detail_toDiagnostic more other, Diagnostic.imitates_append err.notMem_opening]
    rfl

/-- A key begins the wording, and the place that is added ends it. -/
example : Imitates
    ⟨.noSuchKey "There is no variable named \"each", " in expression `var[\"a\"]`"⟩ := by decide

end Stop

section
variable {ctx ctx' : ResolutionContext} {ds : Diagnostics} {seen : List String}

theorem distinctSymbols_subset : distinctSymbols ctx seen ds ⊆ ds := by
  fun_induction distinctSymbols ctx seen ds with
  | case1 => exact List.Subset.refl _
  | case2 seen d ds symbol h seenBefore ih => exact List.subset_cons_of_subset d ih
  | case3 seen d ds symbol h new ih => exact List.cons_subset_cons d ih
  | case4 seen d ds h ih => exact List.cons_subset_cons d ih

theorem distinctSymbols_congr (same : ∀ d ∈ ds, d.unknownSymbol? ctx.config.matchDiagnosticText =
    d.unknownSymbol? ctx'.config.matchDiagnosticText) :
    distinctSymbols ctx seen ds = distinctSymbols ctx' seen ds := by
  induction ds generalizing seen with
  | nil => rfl
  | cons d ds ih =>
    obtain ⟨head, tail⟩ := List.forall_mem_cons.1 same
    simp only [distinctSymbols, head, ih tail]

/-- A verdict on a batch depends only on the unknown roots that are told from it. -/
theorem classifyAll_congr (e : Expression) (block : ctx.block = ctx'.block)
    (same : ∀ d ∈ ds, d.unknownSymbol? ctx.config.matchDiagnosticText =
      d.unknownSymbol? ctx'.config.matchDiagnosticText) :
    classifyAll ds e ctx = classifyAll ds e ctx' := by
  rw [classifyAll, classifyAll, ← distinctSymbols_congr same]
  refine List.foldl_ext _ _ _ fun b d hd => ?_
  rw [classify, classify, same d (distinctSymbols_subset hd), block]

end

/-- The same context where texts are matched or not. -/
def ResolutionContext.matching (ctx : ResolutionContext) (on : Bool) : ResolutionContext :=
  { ctx with config := { ctx.config with matchDiagnosticText := on } }

namespace Expression
variable {e : Expression} {env : Environment} {w : Wording}

theorem isIdentifier_of_stops (written : e.Written) {stop : Stop} (stopped : stop ∈ e.stops env w)
    {name : String} (unknown : stop.error = .unknownVariable name) : Text.IsIdentifier name := by
  unfold stops at stopped
  split at stopped
  · exact unknown_of_errors e (fun r hr _ => written.named r hr) stopped unknown
  · obtain ⟨root, unbound, rfl⟩ := List.mem_map.1 stopped
    cases unknown
    obtain ⟨r, hr, rfl⟩ := mem_roots.1 (List.mem_filter.1 unbound).1
    exact written.isIdentifier_root hr

/-- A resolution depends on the environment and on the verdict on what stops the evaluation. -/
theorem resolve_congr {ctx ctx' : ResolutionContext} (location : Location)
    (environment : ctx.environment = ctx'.environment) (wording : ctx.wording = ctx'.wording)
    (verdict : ∀ ds, e.evaluateWith ctx.environment ctx.wording = .error ds →
      classifyAll ds e ctx = classifyAll ds e ctx') :
    e.resolve location ctx = e.resolve location ctx' := by
  unfold resolve
  rw [← environment, ← wording]
  cases failed : e.evaluateWith ctx.environment ctx.wording with
  | ok v => rfl
  | error ds =>
    dsimp only
    rw [verdict ds failed]

/-- However the messages are worded, the reports of an evaluation are recognised alike by kind and
by wording, save those that spell the wording in what they quote or add. Where none does, matching
texts changes no resolution. -/
theorem recognition_agrees (e : Expression) (written : e.Written) (ctx : ResolutionContext) :
    (∀ ds, e.evaluateWith ctx.environment ctx.wording = .error ds →
      ds = (e.stops ctx.environment ctx.wording).map Stop.report) ∧
    (∀ stop ∈ e.stops ctx.environment ctx.wording,
      stop.report.RecognisedAlike ↔ ¬stop.Imitates) ∧
    ((∀ stop ∈ e.stops ctx.environment ctx.wording, ¬stop.Imitates) → ∀ location,
      e.resolve location (ctx.matching true) = e.resolve location (ctx.matching false)) := by
  have exact_alike : ∀ stop ∈ e.stops ctx.environment ctx.wording,
      (stop.report.RecognisedAlike ↔ ¬stop.Imitates) := fun stop stopped =>
    stop.recognisedAlike_iff fun _ unknown => isIdentifier_of_stops written stopped unknown
  refine ⟨fun ds => eq_of_evaluate, exact_alike, fun plain location => ?_⟩
  refine resolve_congr location rfl rfl fun ds failed => classifyAll_congr e rfl fun d hd => ?_
  rw [eq_of_evaluate failed] at hd
  obtain ⟨stop, stopped, rfl⟩ := List.mem_map.1 hd
  exact ((exact_alike stop stopped).2 (plain stop stopped)).typed

/-- The member under a key of the object that `var` is bound to. -/
def varMember (key : String) : Expression :=
  term (.access (.variable "var") [.index (.string key)])

/-- A context that binds `var` to the empty object. -/
def varContext (w : Wording) : ResolutionContext := ⟨⟨[("var", .map [])]⟩, {}, .plain, w⟩

theorem parseTerm_varMember : parseTerm "var[\"a\"]" = .ok (varMember "a") := by
  with_unfolding_all rfl

/-- Messages that tell where an error happened. -/
def whereInVar : Wording := ⟨fun _ _ _ => " in expression `var[\"a\"]`"⟩

theorem recognition_agrees_varMember :
    (Stop.report ⟨.noSuchKey "a", " in expression `var[\"a\"]`"⟩).RecognisedAlike ∧
    (varMember "a").resolve default ((varContext whereInVar).matching true) =
      (varMember "a").resolve default ((varContext whereInVar).matching false) := by
  obtain ⟨-, alike, same⟩ :=
    recognition_agrees (varMember "a") (.term parseTerm_varMember) (varContext whereInVar)
  exact ⟨(alike ⟨.noSuchKey "a", _⟩ List.mem_cons_self).2 (by decide), same (by decide) default⟩

/-- A key that is spelled like the report on an unknown `each`. -/
def wordedKey : String := "There is no variable named \"each\"."

theorem parseTerm_wordedKey :
    parseTerm "var[\"There is no variable named \\\"each\\\".\"]" = .ok (varMember wordedKey) := by
  with_unfolding_all rfl

/-- The report on the missing key. -/
def wordedReport (w : Wording) : Diagnostic :=
  EvalError.toDiagnostic (.noSuchKey wordedKey)
    (w.more (varMember wordedKey) (varContext w).environment (.noSuchKey wordedKey))

theorem evaluateWith_wordedKey (w : Wording) :
    (varMember wordedKey).evaluateWith (varContext w).environment w =
      .error [wordedReport w] := by
  with_unfolding_all rfl

/-- The report is taken for one on `each`, whatever is added to it. -/
theorem unknownSymbol?_wordedReport (w : Wording) :
    (wordedReport w).unknownSymbol? true = some "each" := by
  have worded := Diagnostic.worded?_of_spelled
    (".`" ++ w.more (varMember wordedKey) (varContext w).environment (.noSuchKey wordedKey))
    (show 'T' ∉ "no such key: `".toList by decide) (show '"' ∉ "each".toList by decide)
  simp only [← String.append_assoc] at worded
  exact worded

theorem resolve_wordedKey (w : Wording) :
    ((varMember wordedKey).resolve default ((varContext w).matching true)).outcome = .deferred ∧
    ((varMember wordedKey).resolve default ((varContext w).matching false)).outcome =
      .failed [(wordedReport w).about default] := by
  have untyped : (wordedReport w).unknownSymbol? false = none := rfl
  have stopped (on : Bool) : (varMember wordedKey).evaluateWith
      ((varContext w).matching on).environment ((varContext w).matching on).wording =
        .error [wordedReport w] := evaluateWith_wordedKey w
  constructor
  · rw [resolve, stopped true]
    simp [ResolutionContext.matching, classifyAll, distinctSymbols, unknownSymbol?_wordedReport,
      classify, classifyRoot, BatchVerdict.add, Resolution.deferred]
  · rw [resolve, stopped false]
    simp [ResolutionContext.matching, classifyAll, distinctSymbols, untyped, classify,
      BatchVerdict.add, Resolution.failed, Diagnostics.orAbout]
    rfl

/-- A missing key that spells the wording is taken for an unknown `each`, and the expression waits
instead of failing. No choice of words for the rest of the message helps. -/
theorem recognition_wordedKey :
    (¬∃ w : Wording, ∀ e : Expression, e.Written → ∀ env ds, e.evaluateWith env w = .error ds →
      ∀ d ∈ ds, d.RecognisedAlike) ∧
    ¬∃ w : Wording, ∀ e : Expression, e.Written → ∀ (location : Location) (ctx : ResolutionContext),
      ctx.wording = w →
        e.resolve location (ctx.matching true) = e.resolve location (ctx.matching false) := by
  constructor
  · rintro ⟨w, alike⟩
    have typed := (alike _ (.term parseTerm_wordedKey) _ _ (evaluateWith_wordedKey w) _
      List.mem_cons_self).typed
    rw [unknownSymbol?_wordedReport] at typed
    cases typed
  · rintro ⟨w, same⟩
    have outcome := congrArg Resolution.outcome
      (same _ (.term parseTerm_wordedKey) default (varContext w) rfl)
    rw [(resolve_wordedKey w).1, (resolve_wordedKey w).2] at outcome
    cases outcome

end Expression
end PipelineResolution
