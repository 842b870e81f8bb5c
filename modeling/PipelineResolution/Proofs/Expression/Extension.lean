import PipelineResolution.Proofs.Expression.Completeness

/-!
# Evaluation in a fuller environment

What evaluates keeps its value when more names are bound, branch by branch of the evaluator. An
identifier keeps its value when no name that is added is spelled as a name that was there.
-/
namespace PipelineResolution

/-- Where the first computation succeeds, the second gives the same. -/
def Keeps {ε α : Type} (x y : Except ε α) : Prop := ∀ a, x = .ok a → y = .ok a

namespace Keeps
variable {ε α β : Type} {x y : Except ε α} {f g : α → Except ε β}

theorem refl (x : Except ε α) : Keeps x x := fun _ h => h

theorem bind (hx : Keeps x y) (hf : ∀ a, Keeps (f a) (g a)) : Keeps (x >>= f) (y >>= g) := by
  intro b h
  obtain ⟨a, ha, hb⟩ := bind_eq_ok.1 h
  exact bind_eq_ok.2 ⟨a, hx a ha, hf a b hb⟩

theorem mapM (hf : ∀ a, Keeps (f a) (g a)) (as : List α) : Keeps (as.mapM f) (as.mapM g) := by
  induction as with
  | nil => exact refl _
  | cons a as ih =>
    rw [List.mapM_cons, List.mapM_cons]
    exact (hf a).bind fun _ => ih.bind fun _ => refl _

theorem foldlM {f g : β → α → Except ε β} (hf : ∀ b a, Keeps (f b a) (g b a)) (as : List α)
    (b : β) : Keeps (as.foldlM f b) (as.foldlM g b) := by
  induction as generalizing b with
  | nil => exact refl _
  | cons a as ih =>
    rw [List.foldlM_cons, List.foldlM_cons]
    exact (hf b a).bind ih

end Keeps

theorem EvalError.isError_toDiagnostic (err : EvalError) (more : String) :
    (err.toDiagnostic more).isError = true := by
  cases err <;> rfl

/-- Every name that one scope sees has the same datum in the other. -/
def Scope.Within (s s' : Scope) : Prop := ∀ name d, s.get? name = some d → s'.get? name = some d

theorem Scope.Within.enter {s s' : Scope} (h : s.Within s') (names : LoopNames)
    (item : Datum × Datum) : (s.enter names item).Within (s'.enter names item) := by
  intro name d hd
  rw [get?_enter] at hd ⊢
  split at hd
  · rwa [if_pos ‹_›]
  · rw [if_neg ‹_›]
    split at hd
    · rwa [if_pos ‹_›]
    · rw [if_neg ‹_›]
      exact h name d hd

mutual
theorem Term.eval_within {s s' : Scope} : (t : Term) → s.Within s' → Keeps (t.eval s) (t.eval s')
  | .null, _ | .bool _, _ | .number _, _ | .string _, _ | .malformed _, _ | .call _ _ _, _ => by
    simp only [Term.eval]
    exact .refl _
  | .variable name, h => by
    intro d hd
    simp only [Term.eval] at hd ⊢
    cases hs : s.get? name with
    | none => simp [hs] at hd
    | some found =>
      rw [hs] at hd
      rw [h name found hs]
      exact hd
  | .array items, h => by
    simp only [Term.eval]
    exact (Term.evalList_within items h).bind fun _ => .refl _
  | .object entries, h => by
    simp only [Term.eval]
    exact (Term.evalEntries_within entries [] h).bind fun _ => .refl _
  | .template _ [.interpolation _ t], h => by
    simp only [Term.eval]
    exact Term.eval_within t h
  | .template _ [], h | .template _ [.text _], h | .template _ [.branch ..], h
  | .template _ [.loop ..], h | .template _ (_ :: _ :: _), h => by
    simp only [Term.eval]
    exact (Part.evalList_within _ _ h).bind fun _ => .refl _
  | .paren inner, h => by
    simp only [Term.eval]
    exact Term.eval_within inner h
  | .conditional test yes no, h => by
    simp only [Term.eval]
    refine (Term.eval_within test h).bind fun _ => (Keeps.refl _).bind fun b => ?_
    split
    · exact Term.eval_within yes h
    · exact Term.eval_within no h
  | .unary op operand, h => by
    simp only [Term.eval]
    exact (Term.eval_within operand h).bind fun _ => .refl _
  | .binary op left right, h => by
    simp only [Term.eval]
    exact (Term.eval_within left h).bind fun _ => (Term.eval_within right h).bind fun _ => .refl _
  | .access base accessors, h => by
    simp only [Term.eval]
    exact (Term.eval_within base h).bind fun d => Accessor.evalList_within accessors d h
  | .listFor names source body tests, h => by
    simp only [Term.eval]
    refine (Term.eval_within source h).bind fun _ => (Keeps.refl _).bind fun rounds => ?_
    refine (Keeps.mapM (fun item => ?_) rounds).bind fun _ => .refl _
    have inner := h.enter names item
    refine (Term.allTrue_within tests inner).bind fun b => ?_
    split
    · exact (Term.eval_within body inner).bind fun _ => .refl _
    · exact .refl _
  | .objectFor names source key body grouped tests, h => by
    simp only [Term.eval]
    refine (Term.eval_within source h).bind fun _ => (Keeps.refl _).bind fun rounds => ?_
    refine (Keeps.foldlM (fun entries item => ?_) rounds []).bind fun _ => .refl _
    have inner := h.enter names item
    refine (Term.allTrue_within tests inner).bind fun b => ?_
    split
    · refine (Term.eval_within key inner).bind fun _ => (Keeps.refl _).bind fun k => ?_
      exact (Term.eval_within body inner).bind fun _ => .refl _
    · exact .refl _

theorem Term.evalList_within {s s' : Scope} :
    (ts : List Term) → s.Within s' → Keeps (Term.evalList s ts) (Term.evalList s' ts)
  | [], _ => .refl _
  | t :: ts, h => by
    simp only [Term.evalList]
    exact (Term.eval_within t h).bind fun _ => (Term.evalList_within ts h).bind fun _ => .refl _

theorem Term.evalEntries_within {s s' : Scope} :
    (es : List (Key × Term)) → (done : List (String × Datum)) → s.Within s' →
      Keeps (Term.evalEntries s done es) (Term.evalEntries s' done es)
  | [], _, _ => .refl _
  | (k, t) :: es, done, h => by
    simp only [Term.evalEntries]
    exact (Key.eval_within k h).bind fun _ => (Term.eval_within t h).bind fun _ =>
      Term.evalEntries_within es _ h

theorem Key.eval_within {s s' : Scope} : (k : Key) → s.Within s' → Keeps (k.eval s) (k.eval s')
  | .name _, _ => .refl _
  | .computed t, h => by
    simp only [Key.eval]
    exact (Term.eval_within t h).bind fun _ => .refl _

theorem Term.allTrue_within {s s' : Scope} :
    (ts : List Term) → s.Within s' → Keeps (Term.allTrue s ts) (Term.allTrue s' ts)
  | [], _ => .refl _
  | t :: ts, h => by
    simp only [Term.allTrue]
    refine (Term.eval_within t h).bind fun _ => (Keeps.refl _).bind fun b => ?_
    split
    · exact Term.allTrue_within ts h
    · exact .refl _

theorem Part.eval_within {s s' : Scope} :
    (p : Part) → (ends : Strip) → s.Within s' → Keeps (p.eval s ends) (p.eval s' ends)
  | .text _, _, _ => by
    simp only [Part.eval]
    exact .refl _
  | .interpolation _ t, _, h => by
    simp only [Part.eval]
    exact (Term.eval_within t h).bind fun _ => .refl _
  | .branch _ test _ yes _ no, _, h => by
    simp only [Part.eval]
    refine (Term.eval_within test h).bind fun _ => (Keeps.refl _).bind fun b => ?_
    split
    · exact Part.evalList_within yes _ h
    · exact Part.evalList_within no _ h
  | .loop _ names source _ body, _, h => by
    simp only [Part.eval]
    refine (Term.eval_within source h).bind fun _ => (Keeps.refl _).bind fun rounds => ?_
    exact (Keeps.mapM (fun item => Part.evalList_within body _ (h.enter names item)) rounds).bind
      fun _ => .refl _

theorem Part.evalList_within {s s' : Scope} :
    (ps : List Part) → (ends : Strip) → s.Within s' →
      Keeps (Part.evalList s ends ps) (Part.evalList s' ends ps)
  | [], _, _ => .refl _
  | p :: ps, ends, h => by
    simp only [Part.evalList]
    exact (Part.eval_within p _ h).bind fun _ => (Part.evalList_within ps _ h).bind
      fun _ => .refl _

theorem Accessor.evalList_within {s s' : Scope} :
    (as : List Accessor) → (d : Datum) → s.Within s' →
      Keeps (Accessor.evalList s d as) (Accessor.evalList s' d as)
  | [], _, _ => .refl _
  | .member name :: rest, d, h => by
    simp only [Accessor.evalList]
    exact (Keeps.refl _).bind fun x => Accessor.evalList_within rest x h
  | .position n :: rest, d, h => by
    simp only [Accessor.evalList]
    exact (Keeps.refl _).bind fun x => Accessor.evalList_within rest x h
  | .index key :: rest, d, h => by
    simp only [Accessor.evalList]
    exact (Term.eval_within key h).bind fun _ => (Keeps.refl _).bind fun x =>
      Accessor.evalList_within rest x h
  | .eachMember names :: rest, d, h => by
    simp only [Accessor.evalList]
    exact (Keeps.refl _).bind fun _ => Accessor.evalList_within rest _ h
  | .each :: rest, d, h => by
    simp only [Accessor.evalList]
    exact (Keeps.mapM (fun d => Accessor.evalList_within rest d h) d.spread).bind fun _ => .refl _
end

namespace Environment
variable {env env' : Environment} {name : String}

/-- The other environment binds all that is bound here, to the same values. -/
def Includes (env env' : Environment) : Prop :=
  ∀ name v, env.get? name = some v → env'.get? name = some v

/-- No name that is added after a known one is spelled like it. -/
def Apart (env env' : Environment) : Prop :=
  ∀ added ∈ env'.bindings, env.binds added.1 = false →
    ∀ known ∈ env.bindings, known.1 < added.1 →
      Text.identifierOf added.1 ≠ Text.identifierOf known.1

instance (env env' : Environment) : Decidable (env.Apart env') :=
  inferInstanceAs (Decidable (∀ added ∈ env'.bindings, _ → ∀ known ∈ env.bindings, _ → _ ≠ _))

theorem Includes.of_forall_mem (h : ∀ entry ∈ env.bindings, env'.get? entry.1 = some entry.2) :
    env.Includes env' :=
  fun _ _ hv => h _ (Dict.mem_of_get? hv)

theorem Includes.binds (h : env.Includes env') (hb : env.binds name = true) :
    env'.binds name = true := by
  obtain ⟨v, hv⟩ := binds_iff.1 hb
  exact binds_iff.2 ⟨v, h name v hv⟩

theorem Includes.find?_eq (h : env.Includes env') (apart : env.Apart env')
    (sorted : env.bindings.Sorted) (sorted' : env'.bindings.Sorted) {v : Value}
    (found : env.find? name = some v) : env'.find? name = some v := by
  -- The entry that is found here stays the last one of its spelling.
  obtain ⟨⟨key, v⟩, last, rfl⟩ := Option.map_eq_some_iff.1 found
  obtain ⟨known, spelled⟩ := List.mem_filter.1 (List.mem_of_getLast? last)
  have ordered : Dict.Sorted (env.bindings.filter (Text.identifierOf ·.1 == name)) :=
    sorted.sublist List.filter_sublist
  have ordered' : Dict.Sorted (env'.bindings.filter (Text.identifierOf ·.1 == name)) :=
    sorted'.sublist List.filter_sublist
  have here : (key, v) ∈ env'.bindings.filter (Text.identifierOf ·.1 == name) :=
    List.mem_filter.2 ⟨Dict.mem_of_get? (h key v (sorted.get?_of_mem known)), spelled⟩
  refine congrArg (Option.map Prod.snd) (ordered'.getLast?_eq here fun entry he => ?_)
  obtain ⟨hm, alike⟩ := List.mem_filter.1 he
  cases hb : env.binds entry.1 with
  | false =>
    refine String.not_lt.1 fun later => apart entry hm hb _ known later ?_
    rw [beq_iff_eq.1 alike, beq_iff_eq.1 spelled]
  | true =>
    obtain ⟨w, hw⟩ := binds_iff.1 hb
    have listed : (entry.1, w) ∈ env.bindings.filter (Text.identifierOf ·.1 == name) :=
      List.mem_filter.2 ⟨Dict.mem_of_get? hw, alike⟩
    exact ordered.le_of_getLast? (e := (entry.1, w)) last listed

theorem Includes.within (h : env.Includes env') (apart : env.Apart env')
    (sorted : env.bindings.Sorted) (sorted' : env'.bindings.Sorted) :
    env.scope.Within env'.scope := by
  intro name d hd
  rw [get?_scope] at hd ⊢
  obtain ⟨v, hv, rfl⟩ := Option.map_eq_some_iff.1 hd
  rw [h.find?_eq apart sorted sorted' hv]
  rfl

end Environment

namespace Expression
variable {env env' : Environment} {w w' : Wording}

/-- A failed evaluation reports an error. -/
theorem hasErrors_of_eval {e : Expression} {ds : Diagnostics} (h : e.eval env w = .error ds) :
    ds.hasErrors = true := by
  refine Diagnostics.hasErrors_of_forall (fun d hd => ?_) (ne_nil_of_eval h)
  rw [eq_of_eval h] at hd
  obtain ⟨stop, -, rfl⟩ := List.mem_map.1 hd
  exact stop.error.isError_toDiagnostic stop.more

theorem hasErrors_of_evaluateWith {e : Expression} {ds : Diagnostics}
    (h : e.evaluateWith env w = .error ds) : ds.hasErrors = true := by
  unfold evaluateWith at h
  split at h
  · cases h
  · split at h
    · exact hasErrors_of_eval h
    · rename_i unknown
      cases h
      obtain ⟨name, hn⟩ := List.exists_mem_of_ne_nil _ unknown
      exact List.any_eq_true.2 ⟨_, List.mem_map_of_mem hn, rfl⟩

mutual
theorem eval_within : (e : Expression) → env.scope.Within env'.scope →
    Keeps (e.eval env w) (e.eval env' w')
  | .literal _, _ => by
    simp only [eval]
    exact .refl _
  | .template parts, h => by
    intro v hv
    rw [eval] at hv ⊢
    split at hv
    · rwa [Part.evalList_within parts _ h _ ‹_›]
    · cases hv
  | .term t, h => by
    intro v hv
    rw [eval] at hv ⊢
    split at hv
    · rwa [t.eval_within h _ ‹_›]
    · cases hv
  | .tuple items, h => by
    intro v hv
    rw [eval] at hv ⊢
    split at hv
    · rename_i hl
      rwa [evalList_within items h _ hl]
    · cases hv
  | .object entries, h => by
    intro v hv
    rw [eval] at hv ⊢
    split at hv
    · rename_i hl
      rwa [evalEntries_within entries h _ hl]
    · cases hv

theorem evalList_within : (es : List Expression) → env.scope.Within env'.scope →
    ∀ values, evalList es env w = (values, []) → evalList es env' w' = (values, [])
  | [], _, _, hl => hl
  | e :: es, h, values, hl => by
    rw [evalList] at hl ⊢
    cases he : e.eval env w with
    | ok v =>
      simp only [he, Prod.mk.injEq] at hl
      rw [eval_within e h v he, evalList_within es h _ (Prod.ext rfl hl.2)]
      exact Prod.ext hl.1 rfl
    | error ds =>
      simp only [he, Prod.mk.injEq, List.append_eq_nil_iff] at hl
      exact absurd (hasErrors_of_eval (hl.2.1 ▸ he)) (by simp [Diagnostics.hasErrors])

theorem evalEntries_within : (es : List (String × Expression)) → env.scope.Within env'.scope →
    ∀ values, evalEntries es env w = (values, []) → evalEntries es env' w' = (values, [])
  | [], _, _, hl => hl
  | (k, e) :: es, h, values, hl => by
    rw [evalEntries] at hl ⊢
    cases he : e.eval env w with
    | ok v =>
      simp only [he, Prod.mk.injEq] at hl
      rw [eval_within e h v he, evalEntries_within es h _ (Prod.ext rfl hl.2)]
      exact Prod.ext hl.1 rfl
    | error ds =>
      simp only [he, Prod.mk.injEq, List.append_eq_nil_iff] at hl
      exact absurd (hasErrors_of_eval (hl.2.1 ▸ he)) (by simp [Diagnostics.hasErrors])
end

/-- An expression that evaluates has the same value in a fuller environment, and however errors are
worded. -/
theorem evaluateWith_within (e : Expression) (includes : env.Includes env')
    (within : env.scope.Within env'.scope) :
    Keeps (e.evaluateWith env w) (e.evaluateWith env' w') := by
  intro v hv
  unfold evaluateWith at hv ⊢
  split at hv
  · exact hv
  · split at hv
    · rename_i known
      have listed : e.unknownRoots env' = [] := by
        refine List.filter_eq_nil_iff.2 fun name hn => ?_
        have hb := List.filter_eq_nil_iff.1 known name hn
        simp only [Bool.not_eq_true', Bool.not_eq_false] at hb ⊢
        exact includes.binds hb
      rw [listed]
      exact eval_within e within v hv
    · cases hv

theorem evaluate_within (e : Expression) (includes : env.Includes env') (apart : env.Apart env')
    (sorted : env.bindings.Sorted) (sorted' : env'.bindings.Sorted) :
    Keeps (e.evaluateWith env w) (e.evaluate env') :=
  e.evaluateWith_within includes (includes.within apart sorted sorted')

/-- How errors are worded makes no difference to a value. -/
theorem evaluateWith_eq_ok {e : Expression} {v : Value} :
    e.evaluateWith env w = .ok v ↔ e.evaluate env = .ok v :=
  have keeps {w w' : Wording} : Keeps (e.evaluateWith env w) (e.evaluateWith env w') :=
    e.evaluateWith_within (fun _ _ h => h) fun _ _ h => h
  ⟨keeps v, keeps v⟩

end Expression
end PipelineResolution
