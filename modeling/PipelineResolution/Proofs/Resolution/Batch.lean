import PipelineResolution.Proofs.Resolution.Edges
import PipelineResolution.Proofs.Resolution.Recognition

/-!
# Verdicts on batches

A batch is judged with every unknown root once. The verdict is that of all its diagnostics: a
repetition brings edges that are there already, the report that is there already, and no other
verdict than the one before it.
-/
namespace PipelineResolution

/-- Where elements are told apart by what they give, repetitions may go before or after. -/
theorem eraseDups_filterMap {α β : Type} [DecidableEq α] [DecidableEq β] {f : α → Option β}
    (inj : ∀ a b c, f a = some c → f b = some c → a = b) (as : List α) :
    (as.filterMap f).eraseDups = as.eraseDups.filterMap f := by
  match as with
  | [] => rfl
  | a :: rest =>
    have ih := eraseDups_filterMap inj (rest.filter (!· == a))
    rw [List.eraseDups_cons, List.filterMap_cons, List.filterMap_cons]
    cases image : f a with
    | none =>
      have same : (rest.filter (!· == a)).filterMap f = rest.filterMap f := by
        rw [List.filterMap_filter]
        refine List.filterMap_congr fun b _ => ?_
        by_cases hb : b = a <;> simp [hb, image]
      rw [← ih, same]
    | some c =>
      have same : (rest.filter (!· == a)).filterMap f = (rest.filterMap f).filter (!· == c) := by
        rw [List.filterMap_filter, List.filter_filterMap]
        refine List.filterMap_congr fun b _ => ?_
        by_cases hb : b = a
        · simp [hb, image, Option.filter]
        · cases other : f b with
          | none => simp
          | some c' =>
            have apart : c' ≠ c := fun hc => hb (inj b a c (hc ▸ other) image)
            simp [hb, apart, Option.filter]
      dsimp only
      rw [List.eraseDups_cons, ← ih, same]
termination_by as.length
decreasing_by exact Nat.lt_succ_of_le (List.length_filter_le _ _)

section
variable {ctx : ResolutionContext} {e : Expression} {ds : Diagnostics} {d : Diagnostic}
  {seen : List String}

/-- The unknown root that a diagnostic is taken to report. -/
def ResolutionContext.symbol? (ctx : ResolutionContext) (d : Diagnostic) : Option String :=
  d.unknownSymbol? ctx.config.matchDiagnosticText

theorem classify_congr {other : Diagnostic} (same : ctx.symbol? d = ctx.symbol? other) :
    classify d e ctx = classify other e ctx := by
  unfold classify
  rw [show d.unknownSymbol? _ = _ from same]
  rfl

theorem classify_of_symbol? {name : String} (h : ctx.symbol? d = some name) :
    classify d e ctx = classifyRoot name e ctx.block := by
  unfold classify
  rw [show d.unknownSymbol? _ = _ from h]

theorem report?_classify :
    (classify d e ctx).report? = (ctx.symbol? d).bind e.malformed? := by
  unfold classify ResolutionContext.symbol?
  cases d.unknownSymbol? _ with
  | none => rfl
  | some name => exact Expression.report?_classifyRoot name e ctx.block

/-- A diagnostic is left out of a batch only if another one reports its root. -/
theorem exists_distinctSymbols (seen : List String) (hd : d ∈ ds) :
    (∃ name ∈ seen, ctx.symbol? d = some name) ∨
      ∃ other ∈ distinctSymbols ctx seen ds, ctx.symbol? other = ctx.symbol? d := by
  fun_induction distinctSymbols ctx seen ds with
  | case1 => cases hd
  | case2 seen first ds name h before ih =>
    rcases List.mem_cons.1 hd with rfl | hd
    · exact .inl ⟨name, List.contains_iff_mem.1 before, h⟩
    · exact ih hd
  | case3 seen first ds name h new ih =>
    rcases List.mem_cons.1 hd with rfl | hd
    · exact .inr ⟨d, List.mem_cons_self, rfl⟩
    · rcases ih hd with ⟨name', hn, same⟩ | ⟨other, ho, same⟩
      · rcases List.mem_cons.1 hn with rfl | hn
        · exact .inr ⟨first, List.mem_cons_self, h.trans same.symm⟩
        · exact .inl ⟨name', hn, same⟩
      · exact .inr ⟨other, List.mem_cons_of_mem _ ho, same⟩
  | case4 seen first ds h ih =>
    rcases List.mem_cons.1 hd with rfl | hd
    · exact .inr ⟨d, List.mem_cons_self, rfl⟩
    · rcases ih hd with before | ⟨other, ho, same⟩
      · exact .inl before
      · exact .inr ⟨other, List.mem_cons_of_mem _ ho, same⟩

/-- The roots that are judged are those of the batch, at their first occurrences. -/
theorem filterMap_distinctSymbols : (distinctSymbols ctx seen ds).filterMap ctx.symbol? =
    ((ds.filterMap ctx.symbol?).filter (!seen.contains ·)).eraseDups := by
  fun_induction distinctSymbols ctx seen ds with
  | case1 => rfl
  | case2 seen d ds name h before ih =>
    have named : ctx.symbol? d = some name := h
    rw [List.filterMap_cons_some named, List.filter_cons_of_neg (by simpa using before), ih]
  | case3 seen d ds name h new ih =>
    have named : ctx.symbol? d = some name := h
    rw [List.filterMap_cons_some named, List.filterMap_cons_some named,
      List.filter_cons_of_pos (by simpa using new), List.eraseDups_cons, List.filter_filter, ih]
    simp only [List.contains_cons, Bool.not_or]
  | case4 seen d ds h ih =>
    have unnamed : ctx.symbol? d = none := h
    rw [List.filterMap_cons_none unnamed, List.filterMap_cons_none unnamed, ih]

/-- Judging a repetition adds no edge. -/
theorem foldl_add_distinctSymbols {s : DependencySet}
    (known : ∀ name ∈ seen, ∀ edge ∈ (classifyRoot name e ctx.block).edges, edge ∈ s) :
    ((distinctSymbols ctx seen ds).flatMap fun d => (classify d e ctx).edges).foldl .add s =
      (ds.flatMap fun d => (classify d e ctx).edges).foldl .add s := by
  fun_induction distinctSymbols ctx seen ds generalizing s with
  | case1 => rfl
  | case2 seen d ds name h before ih =>
    have judged : ∀ edge ∈ (classify d e ctx).edges, edge ∈ s := by
      rw [classify_of_symbol? h]
      exact known name (List.contains_iff_mem.1 before)
    rw [ih known, List.flatMap_cons, List.foldl_append, DependencySet.foldl_add_of_mem judged]
  | case3 seen d ds name h new ih =>
    rw [List.flatMap_cons, List.flatMap_cons, List.foldl_append, List.foldl_append]
    refine ih fun other ho edge he => DependencySet.mem_foldl_add.2 ?_
    rcases List.mem_cons.1 ho with rfl | ho
    · exact .inr ((classify_of_symbol? h).symm ▸ he)
    · exact .inl (known other ho edge he)
  | case4 seen d ds h ih =>
    rw [List.flatMap_cons, List.flatMap_cons, List.foldl_append, List.foldl_append]
    exact ih fun other ho edge he => DependencySet.mem_foldl_add.2 (.inl (known other ho edge he))

/-- A report on a malformed reference names the root and quotes the reference. -/
theorem Expression.eq_of_malformed? {name : String} (h : e.malformed? name = some d) :
    d.summary = "Invalid " ++ name ++ " reference" ∧
      ∃ r ∈ e.references, d.kind = .malformedReference r.display := by
  have found {root : String} {least : Nat} {r : Reference} (hr : e.short? root least = some r) :
      r ∈ e.references := (List.mem_filter.1 (List.mem_of_find?_eq_some hr)).1
  unfold Expression.malformed? at h
  split at h
  · rename_i hn
    obtain ⟨r, hr, rfl⟩ := Option.map_eq_some_iff.1 h
    exact ⟨hn ▸ rfl, r, found hr, rfl⟩
  · split at h
    · rename_i hn
      obtain ⟨r, hr, rfl⟩ := Option.map_eq_some_iff.1 h
      exact ⟨hn ▸ rfl, r, found hr, rfl⟩
    · cases h

theorem Expression.malformed?_inj {name other : String} (h : e.malformed? name = some d)
    (h' : e.malformed? other = some d) : name = other := by
  have same := (Expression.eq_of_malformed? h).1.symm.trans (Expression.eq_of_malformed? h').1
  simpa only [← String.toList_inj, String.toList_append, List.append_cancel_left_eq,
    List.append_cancel_right_eq] using same

end

/-- The verdict on a batch is that of all its diagnostics. It is recoverable when each of them is;
the edges make the dependencies that all the edges make; and the reports are those on the malformed
references, in the order of their first occurrence, one for each root. -/
theorem classifyAll_eq (ds : Diagnostics) (e : Expression) (ctx : ResolutionContext) :
    ((classifyAll ds e ctx).recoverable = true ↔
      ∀ d ∈ ds, ∃ edges, classify d e ctx = .recoverable edges) ∧
    DependencySet.ofEdges (classifyAll ds e ctx).edges =
      .ofEdges (ds.flatMap fun d => (classify d e ctx).edges) ∧
    (classifyAll ds e ctx).extra = (ds.filterMap fun d => (classify d e ctx).report?).eraseDups ∧
    (classifyAll ds e ctx).extra = (ds.filterMap ctx.symbol?).eraseDups.filterMap e.malformed? ∧
    ∀ report ∈ (classifyAll ds e ctx).extra,
      ∃ r ∈ e.references, report.kind = .malformedReference r.display := by
  have recoverable_iff (d : Diagnostic) : (classify d e ctx).isRecoverable = true ↔
      ∃ edges, classify d e ctx = .recoverable edges := by
    cases classify d e ctx <;> simp [Verdict.isRecoverable]
  have reports (ds : Diagnostics) : (ds.filterMap fun d => (classify d e ctx).report?) =
      (ds.filterMap ctx.symbol?).filterMap e.malformed? := by
    simp only [report?_classify, List.filterMap_filterMap]
  have extra : (classifyAll ds e ctx).extra =
      (ds.filterMap ctx.symbol?).eraseDups.filterMap e.malformed? := by
    rw [classifyAll_distinct, reports, filterMap_distinctSymbols, List.filter_eq_self.2 (by simp)]
  refine ⟨?_, ?_, ?_, extra, fun report hr => ?_⟩
  · simp only [classifyAll_distinct, List.all_eq_true, recoverable_iff]
    refine ⟨fun all d hd => ?_, fun all d hd => all d (distinctSymbols_subset hd)⟩
    rcases exists_distinctSymbols [] hd with ⟨_, h, -⟩ | ⟨other, ho, same⟩
    · cases h
    · exact classify_congr same ▸ all other ho
  · rw [classifyAll_distinct]
    exact foldl_add_distinctSymbols (by simp)
  · rw [extra, reports, eraseDups_filterMap fun _ _ _ h h' => Expression.malformed?_inj h h']
  · rw [extra] at hr
    obtain ⟨name, -, hn⟩ := List.mem_filterMap.1 hr
    exact (Expression.eq_of_malformed? hn).2

end PipelineResolution
