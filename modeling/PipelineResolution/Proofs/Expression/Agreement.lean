import PipelineResolution.Proofs.Expression.Reads

/-!
# Evaluation depends on what is read

Two scopes that agree on the reads of a term give it the same value or the same error, whatever
else they hold. Agreement on a read does not need equal bindings: two objects agree along a path
when they agree on what lies under its first key.
-/
namespace PipelineResolution

/-- Two data that cannot be told apart by following a path. -/
inductive Datum.SameAlong : Datum → Datum → List PathStep → Prop
  | here (d : Datum) (path : List PathStep) : SameAlong d d path
  | absent {es fs : List (String × Datum)} {name : String} {path : List PathStep}
      (left : lookup es name = none) (right : lookup fs name = none) :
      SameAlong (.object es) (.object fs) (.key name :: path)
  | under {es fs : List (String × Datum)} {name : String} {d d' : Datum} {path : List PathStep}
      (left : lookup es name = some d) (right : lookup fs name = some d')
      (same : SameAlong d d' path) : SameAlong (.object es) (.object fs) (.key name :: path)

/-- Two scopes that give the same answer to a read. -/
inductive Scope.Agree (s s' : Scope) (r : Read) : Prop
  | unbound (left : s.get? r.root = none) (right : s'.get? r.root = none)
  | bound {d d' : Datum} (left : s.get? r.root = some d) (right : s'.get? r.root = some d')
      (same : d.SameAlong d' r.path)

namespace Scope
variable {s s' : Scope} {r : Read}

theorem get?_enter (s : Scope) (names : LoopNames) (item : Datum × Datum) (name : String) :
    (s.enter names item).get? name =
      if names.value = name then some item.2
      else if names.key = some name then some item.1 else s.get? name := by
  obtain ⟨key, value⟩ := names
  by_cases hv : value = name
  · simp [get?, enter, Datum.lookup, hv]
  · cases key with
    | none => simp [get?, enter, Datum.lookup, hv]
    | some k => by_cases hk : k = name <;> simp [get?, enter, Datum.lookup, hv, hk]

theorem Agree.of_get?_eq (h : s.get? r.root = s'.get? r.root) : s.Agree s' r := by
  cases hd : s.get? r.root with
  | none => exact .unbound hd (h ▸ hd)
  | some d => exact .bound hd (h ▸ hd) (.here d _)

/-- Inside a loop the scopes agree on a name that it binds, and on any other as they did before. -/
theorem Agree.enter (names : LoopNames) (item : Datum × Datum)
    (h : names.binds r.root = false → s.Agree s' r) :
    (s.enter names item).Agree (s'.enter names item) r := by
  by_cases hb : names.binds r.root = true
  · apply Agree.of_get?_eq
    rw [get?_enter, get?_enter]
    simp only [LoopNames.binds, Bool.or_eq_true, beq_iff_eq] at hb
    rcases hb with hv | hk
    · simp [hv]
    · simp [hk]
  · have hb' : names.binds r.root = false := by simpa using hb
    have hn : names.value ≠ r.root ∧ names.key ≠ some r.root := by
      simpa [LoopNames.binds] using hb'
    cases h hb' with
    | unbound left right =>
      exact .unbound (by rw [get?_enter, if_neg hn.1, if_neg hn.2, left])
        (by rw [get?_enter, if_neg hn.1, if_neg hn.2, right])
    | bound left right same =>
      exact .bound (by rw [get?_enter, if_neg hn.1, if_neg hn.2, left])
        (by rw [get?_enter, if_neg hn.1, if_neg hn.2, right]) same

/-- Agreement on a list of reads. -/
def AgreeOn (s s' : Scope) (reads : List Read) : Prop := ∀ r ∈ reads, s.Agree s' r

variable {a b : List Read}

theorem agreeOn_append : s.AgreeOn s' (a ++ b) ↔ s.AgreeOn s' a ∧ s.AgreeOn s' b := by
  simp only [AgreeOn, List.mem_append, or_imp, forall_and]

theorem AgreeOn.enter {names : LoopNames} (h : s.AgreeOn s' (a.filter (!names.binds ·.root)))
    (item : Datum × Datum) : (s.enter names item).AgreeOn (s'.enter names item) a :=
  fun r hr => .enter names item fun hb => h r (List.mem_filter.2 ⟨hr, by simp [hb]⟩)

end Scope

namespace Datum
variable {d d' : Datum} {path : List PathStep}

theorem SameAlong.eq_of_nil (h : d.SameAlong d' []) : d = d' := by cases h; rfl

theorem SameAlong.eq_of_number {text : String} (h : d.SameAlong d' (.number text :: path)) :
    d = d' := by
  cases h
  rfl

/-- Going to a member leads both data to the same error or to data that agree along the rest. -/
theorem SameAlong.member {name : String} (h : d.SameAlong d' (.key name :: path)) :
    (∃ e, d.member name = .error e ∧ d'.member name = .error e) ∨
      ∃ x x', d.member name = .ok x ∧ d'.member name = .ok x' ∧ x.SameAlong x' path := by
  cases h with
  | here _ =>
    cases hd : d.member name with
    | error e => exact .inl ⟨e, rfl, rfl⟩
    | ok x => exact .inr ⟨x, x, rfl, rfl, .here x path⟩
  | absent left right => exact .inl ⟨.noSuchKey name, by simp [Datum.member, left],
      by simp [Datum.member, right]⟩
  | under left right same => exact .inr ⟨_, _, by simp [Datum.member, left],
      by simp [Datum.member, right], same⟩

/-- A computed index or a number needs equal data; a constant text goes to a member. -/
theorem SameAlong.index {key : Term} {rest : List Accessor}
    (h : d.SameAlong d' (Accessor.path (.index key :: rest))) :
    d = d' ∨ ∃ name, key = .string name ∧ d.SameAlong d' (.key name :: Accessor.path rest) := by
  simp only [Accessor.path] at h
  split at h
  · rename_i step hs
    unfold Term.step? at hs
    split at hs
    · cases hs
      exact .inr ⟨_, rfl, h⟩
    · cases hs
      exact .inl h.eq_of_number
    · cases hs
  · exact .inl h.eq_of_nil

end Datum

mutual
theorem Term.eval_congr {s s' : Scope} : (t : Term) → s.AgreeOn s' t.reads → t.eval s = t.eval s'
  | .null, _ | .bool _, _ | .number _, _ | .string _, _ | .malformed _, _ | .call _ _ _, _ => by
    simp only [Term.eval]
  | .variable name, h => by
    have hn : s.get? name = s'.get? name := by
      cases h ⟨name, []⟩ (by simp [Term.reads]) with
      | unbound left right => rw [left, right]
      | bound left right same => rw [left, right, same.eq_of_nil]
    simp only [Term.eval, hn]
  | .array items, h => by
    simp only [Term.eval]
    rw [Term.evalList_congr items h]
  | .object entries, h => by
    simp only [Term.eval]
    rw [Term.evalEntries_congr entries [] h]
  | .template _ [.interpolation _ t], h => by
    simp only [Term.reads, Part.listReads, Part.reads, List.append_nil] at h
    simp only [Term.eval]
    exact Term.eval_congr t h
  | .template _ [], h | .template _ [.text _], h | .template _ [.branch ..], h
  | .template _ [.loop ..], h | .template _ (_ :: _ :: _), h => by
    simp only [Term.eval]
    rw [Part.evalList_congr _ _ h]
  | .paren inner, h => by
    simp only [Term.eval]
    exact Term.eval_congr inner h
  | .conditional test yes no, h => by
    simp only [Term.reads, Scope.agreeOn_append] at h
    simp only [Term.eval]
    rw [Term.eval_congr test h.1.1, Term.eval_congr yes h.1.2, Term.eval_congr no h.2]
  | .unary op operand, h => by
    simp only [Term.eval]
    rw [Term.eval_congr operand h]
  | .binary op left right, h => by
    simp only [Term.reads, Scope.agreeOn_append] at h
    simp only [Term.eval]
    rw [Term.eval_congr left h.1, Term.eval_congr right h.2]
  | .access base accessors, h => by
    by_cases hb : ∃ name, base = .variable name
    · obtain ⟨name, rfl⟩ := hb
      simp only [Term.reads, Scope.agreeOn_append] at h
      simp only [Term.eval]
      cases h.1 ⟨name, Accessor.path accessors⟩ List.mem_cons_self with
      | unbound left right => simp only [left, right, bind, Except.bind]
      | bound left right same =>
        simp only [left, right]
        exact Accessor.evalList_congr accessors _ _ same h.2
    · rw [Term.reads_access (not_exists.1 hb), Scope.agreeOn_append] at h
      simp only [Term.eval]
      rw [Term.eval_congr base h.1]
      cases base.eval s' with
      | error e => rfl
      | ok d => exact Accessor.evalList_congr accessors d d (.here d _) h.2
  | .listFor names source body tests, h => by
    simp only [Term.reads, Scope.agreeOn_append] at h
    have inner (item : Datum × Datum) := Scope.agreeOn_append.1 (h.2.enter item)
    simp only [Term.eval]
    rw [Term.eval_congr source h.1]
    simp only [Term.allTrue_congr tests (inner _).2, Term.eval_congr body (inner _).1]
  | .objectFor names source key body grouped tests, h => by
    simp only [Term.reads, Scope.agreeOn_append] at h
    have inner (item : Datum × Datum) : _ ∧ _ :=
      Scope.agreeOn_append.1 (h.2.enter item)
    simp only [Scope.agreeOn_append] at inner
    simp only [Term.eval]
    rw [Term.eval_congr source h.1]
    simp only [Term.allTrue_congr tests (inner _).2, Term.eval_congr key (inner _).1.1,
      Term.eval_congr body (inner _).1.2]

theorem Term.evalList_congr {s s' : Scope} :
    (ts : List Term) → s.AgreeOn s' (Term.listReads ts) → Term.evalList s ts = Term.evalList s' ts
  | [], _ => rfl
  | t :: ts, h => by
    simp only [Term.listReads, Scope.agreeOn_append] at h
    simp only [Term.evalList]
    rw [Term.eval_congr t h.1, Term.evalList_congr ts h.2]

theorem Term.evalEntries_congr {s s' : Scope} :
    (es : List (Key × Term)) → (done : List (String × Datum)) →
      s.AgreeOn s' (Term.entryReads es) → Term.evalEntries s done es = Term.evalEntries s' done es
  | [], _, _ => rfl
  | (k, t) :: es, done, h => by
    simp only [Term.entryReads, Scope.agreeOn_append] at h
    simp only [Term.evalEntries]
    rw [Key.eval_congr k h.1.1, Term.eval_congr t h.1.2]
    simp only [Term.evalEntries_congr es _ h.2]

theorem Key.eval_congr {s s' : Scope} : (k : Key) → s.AgreeOn s' k.reads → k.eval s = k.eval s'
  | .name _, _ => rfl
  | .computed t, h => by
    simp only [Key.eval]
    rw [Term.eval_congr t h]

theorem Term.allTrue_congr {s s' : Scope} :
    (ts : List Term) → s.AgreeOn s' (Term.listReads ts) → Term.allTrue s ts = Term.allTrue s' ts
  | [], _ => rfl
  | t :: ts, h => by
    simp only [Term.listReads, Scope.agreeOn_append] at h
    simp only [Term.allTrue]
    rw [Term.eval_congr t h.1, Term.allTrue_congr ts h.2]

theorem Part.eval_congr {s s' : Scope} :
    (p : Part) → (ends : Strip) → s.AgreeOn s' p.reads → p.eval s ends = p.eval s' ends
  | .text _, _, _ => rfl
  | .interpolation _ t, _, h => by
    simp only [Part.eval]
    rw [Term.eval_congr t h]
  | .branch _ test _ yes _ no, _, h => by
    simp only [Part.reads, Scope.agreeOn_append] at h
    simp only [Part.eval]
    rw [Term.eval_congr test h.1.1, Part.evalList_congr yes _ h.1.2, Part.evalList_congr no _ h.2]
  | .loop _ names source _ body, _, h => by
    simp only [Part.reads, Scope.agreeOn_append] at h
    simp only [Part.eval]
    rw [Term.eval_congr source h.1]
    simp only [Part.evalList_congr body _ (h.2.enter _)]

theorem Part.evalList_congr {s s' : Scope} :
    (ps : List Part) → (ends : Strip) →
      s.AgreeOn s' (Part.listReads ps) → Part.evalList s ends ps = Part.evalList s' ends ps
  | [], _, _ => rfl
  | p :: ps, ends, h => by
    simp only [Part.listReads, Scope.agreeOn_append] at h
    simp only [Part.evalList]
    rw [Part.eval_congr p _ h.1, Part.evalList_congr ps _ h.2]

theorem Accessor.evalList_congr {s s' : Scope} :
    (as : List Accessor) → (d d' : Datum) → d.SameAlong d' (Accessor.path as) →
      s.AgreeOn s' (Accessor.listReads as) → Accessor.evalList s d as = Accessor.evalList s' d' as
  | [], d, d', h, _ => by rw [h.eq_of_nil]; rfl
  | .member name :: rest, d, d', h, hr => by
    simp only [Accessor.evalList]
    rcases h.member with ⟨e, hd, hd'⟩ | ⟨x, x', hd, hd', hx⟩
    · rw [hd, hd']
      rfl
    · rw [hd, hd']
      exact Accessor.evalList_congr rest x x' hx hr
  | .position n :: rest, d, d', h, hr => by
    cases h.eq_of_number
    simp only [Accessor.evalList]
    cases d.position n with
    | error e => rfl
    | ok x => exact Accessor.evalList_congr rest x x (.here x _) hr
  | .index key :: rest, d, d', h, hr => by
    simp only [Accessor.listReads, Scope.agreeOn_append] at hr
    simp only [Accessor.evalList]
    rcases h.index with rfl | ⟨name, rfl, hn⟩
    · rw [Term.eval_congr key hr.1]
      cases key.eval s' with
      | error e => rfl
      | ok k =>
        cases hx : d.index k with
        | error e => simp only [bind, Except.bind, hx]
        | ok x =>
          simp only [bind, Except.bind, hx]
          exact Accessor.evalList_congr rest x x (.here x _) hr.2
    · simp only [Term.eval, bind, Except.bind, Datum.index]
      rcases hn.member with ⟨e, hd, hd'⟩ | ⟨x, x', hd, hd', hx⟩
      · rw [hd, hd']
      · rw [hd, hd']
        exact Accessor.evalList_congr rest x x' hx hr.2
  | .eachMember names :: rest, d, d', h, hr => by
    cases h.eq_of_nil
    simp only [Accessor.evalList]
    cases d.spread.mapM (·.members names) with
    | error e => rfl
    | ok items => exact Accessor.evalList_congr rest _ _ (.here _ _) hr
  | .each :: rest, d, d', h, hr => by
    cases h.eq_of_nil
    simp only [Accessor.evalList]
    simp only [fun d => Accessor.evalList_congr rest d d (.here _ _) hr]
end

end PipelineResolution
