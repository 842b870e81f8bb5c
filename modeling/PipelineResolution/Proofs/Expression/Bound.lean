import PipelineResolution.Proofs.Expression.Agreement

/-!
# Unknown variables

A term stops at an unknown variable only where one of its reads is unbound. `StopsAt P` is what every
part of an evaluation keeps in a scope where the unbound roots of all reads have the property `P`.
-/
namespace PipelineResolution

/-- A computation that stops at an unknown variable only under a name with a property. -/
def StopsAt {α : Type} (P : String → Prop) (x : Except EvalError α) : Prop :=
  ∀ name, x = .error (.unknownVariable name) → P name

variable {P : String → Prop}

namespace StopsAt
variable {α β : Type} {x : Except EvalError α} {f : α → Except EvalError β}

theorem ok (a : α) : StopsAt P (.ok a : Except EvalError α) := by
  intro name h
  cases h

theorem bind (hx : StopsAt P x) (hf : ∀ a, StopsAt P (f a)) : StopsAt P (x >>= f) := by
  cases x with
  | error e =>
    intro name h
    cases h
    exact hx name rfl
  | ok a => exact hf a

theorem mapM (hf : ∀ a, StopsAt P (f a)) (as : List α) : StopsAt P (as.mapM f) := by
  induction as with
  | nil => exact ok []
  | cons a as ih =>
    rw [List.mapM_cons]
    exact (hf a).bind fun b => ih.bind fun bs => ok (b :: bs)

theorem foldlM {g : β → α → Except EvalError β} (hg : ∀ b a, StopsAt P (g b a)) (as : List α)
    (b : β) : StopsAt P (as.foldlM g b) := by
  induction as generalizing b with
  | nil => exact ok b
  | cons a as ih =>
    rw [List.foldlM_cons]
    exact (hg b a).bind ih

end StopsAt

namespace Datum

theorem stopsAt_truth (d : Datum) : StopsAt P d.truth := by cases d <;> intro _ h <;> cases h

theorem stopsAt_key (d : Datum) : StopsAt P d.key := by cases d <;> intro _ h <;> cases h

theorem stopsAt_rounds (d : Datum) : StopsAt P d.rounds := by cases d <;> intro _ h <;> cases h

theorem stopsAt_member (d : Datum) (name : String) : StopsAt P (d.member name) := by
  intro unknown h
  unfold member at h
  split at h
  · split at h <;> cases h
  · cases h

theorem stopsAt_members (d : Datum) (names : List String) : StopsAt P (d.members names) := by
  induction names generalizing d with
  | nil => exact .ok d
  | cons name names ih => exact (d.stopsAt_member name).bind ih

theorem stopsAt_position (d : Datum) (n : Nat) : StopsAt P (d.position n) := by
  intro unknown h
  unfold position at h
  split at h
  · split at h <;> cases h
  · cases h

theorem stopsAt_index (d k : Datum) : StopsAt P (d.index k) := by
  unfold index
  split
  · exact d.stopsAt_member _
  · split
    · exact d.stopsAt_position _
    · intro _ h
      cases h
  · intro _ h
    cases h

theorem stopsAt_extend (entries : List (String × Datum)) (key : String) (d : Datum) :
    StopsAt P (extend entries key d) := by
  intro _ h
  unfold extend at h
  split at h <;> cases h

end Datum

theorem UnaryOp.stopsAt_apply (op : UnaryOp) (d : Datum) : StopsAt P (op.apply d) := by
  intro _ h
  unfold UnaryOp.apply at h
  split at h <;> cases h

theorem BinaryOp.stopsAt_apply (op : BinaryOp) (l r : Datum) : StopsAt P (op.apply l r) := by
  intro _ h
  unfold BinaryOp.apply at h
  split at h <;> cases h

namespace Scope
variable {s : Scope} {a b : List Read}

/-- The unbound roots among the given reads have a property. -/
def Covers (s : Scope) (P : String → Prop) (reads : List Read) : Prop :=
  ∀ r ∈ reads, s.get? r.root = none → P r.root

theorem covers_append : s.Covers P (a ++ b) ↔ s.Covers P a ∧ s.Covers P b := by
  simp only [Covers, List.mem_append, or_imp, forall_and]

theorem Covers.enter {names : LoopNames} (h : s.Covers P (a.filter (!names.binds ·.root)))
    (item : Datum × Datum) : (s.enter names item).Covers P a := by
  intro r hr
  rw [get?_enter]
  by_cases hv : names.value = r.root
  · simp [hv]
  by_cases hk : names.key = some r.root
  · simp [hv, hk]
  · rw [if_neg hv, if_neg hk]
    exact h r (List.mem_filter.2 ⟨hr, by simp [LoopNames.binds, hv, hk]⟩)

end Scope

mutual
theorem Term.stopsAt_eval {s : Scope} : (t : Term) → s.Covers P t.reads → StopsAt P (t.eval s)
  | .null, _ | .bool _, _ | .number _, _ | .string _, _ => .ok _
  | .malformed _, _ | .call _ _ _, _ => by
    intro _ h
    cases h
  | .variable name, h => by
    simp only [Term.eval]
    cases hd : s.get? name with
    | none =>
      intro unknown stopped
      cases stopped
      exact h ⟨name, []⟩ List.mem_cons_self hd
    | some d => exact .ok d
  | .array items, h => by
    simp only [Term.eval]
    exact (Term.stopsAt_evalList items h).bind fun _ => .ok _
  | .object entries, h => by
    simp only [Term.eval]
    exact (Term.stopsAt_evalEntries entries [] h).bind fun _ => .ok _
  | .template _ [.interpolation _ t], h => by
    simp only [Term.reads, Part.listReads, Part.reads, List.append_nil] at h
    simp only [Term.eval]
    exact Term.stopsAt_eval t h
  | .template _ [], h | .template _ [.text _], h | .template _ [.branch ..], h
  | .template _ [.loop ..], h | .template _ (_ :: _ :: _), h => by
    simp only [Term.eval]
    exact (Part.stopsAt_evalList _ _ h).bind fun _ => .ok _
  | .paren inner, h => by
    simp only [Term.eval]
    exact Term.stopsAt_eval inner h
  | .conditional test yes no, h => by
    simp only [Term.reads, Scope.covers_append] at h
    simp only [Term.eval]
    refine (Term.stopsAt_eval test h.1.1).bind fun d => d.stopsAt_truth.bind fun b => ?_
    split
    · exact Term.stopsAt_eval yes h.1.2
    · exact Term.stopsAt_eval no h.2
  | .unary op operand, h => by
    simp only [Term.eval]
    exact (Term.stopsAt_eval operand h).bind op.stopsAt_apply
  | .binary op left right, h => by
    simp only [Term.reads, Scope.covers_append] at h
    simp only [Term.eval]
    exact (Term.stopsAt_eval left h.1).bind fun l =>
      (Term.stopsAt_eval right h.2).bind (op.stopsAt_apply l)
  | .access base accessors, h => by
    by_cases hb : ∃ name, base = .variable name
    · obtain ⟨name, rfl⟩ := hb
      simp only [Term.reads, Scope.covers_append] at h
      simp only [Term.eval]
      cases hd : s.get? name with
      | none =>
        intro unknown stopped
        cases stopped
        exact h.1 ⟨name, Accessor.path accessors⟩ List.mem_cons_self hd
      | some d => exact Accessor.stopsAt_evalList accessors d h.2
    · rw [Term.reads_access (not_exists.1 hb), Scope.covers_append] at h
      simp only [Term.eval]
      exact (Term.stopsAt_eval base h.1).bind fun d => Accessor.stopsAt_evalList accessors d h.2
  | .listFor names source body tests, h => by
    simp only [Term.reads, Scope.covers_append] at h
    have inner (item : Datum × Datum) := Scope.covers_append.1 (h.2.enter item)
    simp only [Term.eval]
    refine (Term.stopsAt_eval source h.1).bind fun d => d.stopsAt_rounds.bind fun rounds => ?_
    refine (StopsAt.mapM (fun item => ?_) rounds).bind fun _ => .ok _
    refine (Term.stopsAt_allTrue tests (inner item).2).bind fun b => ?_
    split
    · exact (Term.stopsAt_eval body (inner item).1).bind fun _ => .ok _
    · exact .ok _
  | .objectFor names source key body grouped tests, h => by
    simp only [Term.reads, Scope.covers_append] at h
    have inner (item : Datum × Datum) : _ ∧ _ := Scope.covers_append.1 (h.2.enter item)
    simp only [Scope.covers_append] at inner
    simp only [Term.eval]
    refine (Term.stopsAt_eval source h.1).bind fun d => d.stopsAt_rounds.bind fun rounds => ?_
    refine (StopsAt.foldlM (fun entries item => ?_) rounds []).bind fun _ => .ok _
    refine (Term.stopsAt_allTrue tests (inner item).2).bind fun b => ?_
    split
    · refine (Term.stopsAt_eval key (inner item).1.1).bind fun k => k.stopsAt_key.bind fun k => ?_
      refine (Term.stopsAt_eval body (inner item).1.2).bind fun d => ?_
      split
      · exact .ok _
      · exact Datum.stopsAt_extend entries k d
    · exact .ok _

theorem Term.stopsAt_evalList {s : Scope} :
    (ts : List Term) → s.Covers P (Term.listReads ts) → StopsAt P (Term.evalList s ts)
  | [], _ => .ok _
  | t :: ts, h => by
    simp only [Term.listReads, Scope.covers_append] at h
    simp only [Term.evalList]
    exact (Term.stopsAt_eval t h.1).bind fun _ => (Term.stopsAt_evalList ts h.2).bind fun _ => .ok _

theorem Term.stopsAt_evalEntries {s : Scope} :
    (es : List (Key × Term)) → (done : List (String × Datum)) → s.Covers P (Term.entryReads es) →
      StopsAt P (Term.evalEntries s done es)
  | [], _, _ => .ok _
  | (k, t) :: es, done, h => by
    simp only [Term.entryReads, Scope.covers_append] at h
    simp only [Term.evalEntries]
    exact (Key.stopsAt_eval k h.1.1).bind fun _ => (Term.stopsAt_eval t h.1.2).bind fun _ =>
      Term.stopsAt_evalEntries es _ h.2

theorem Key.stopsAt_eval {s : Scope} : (k : Key) → s.Covers P k.reads → StopsAt P (k.eval s)
  | .name _, _ => .ok _
  | .computed t, h => by
    simp only [Key.eval]
    exact (Term.stopsAt_eval t h).bind fun d => d.stopsAt_key

theorem Term.stopsAt_allTrue {s : Scope} :
    (ts : List Term) → s.Covers P (Term.listReads ts) → StopsAt P (Term.allTrue s ts)
  | [], _ => .ok _
  | t :: ts, h => by
    simp only [Term.listReads, Scope.covers_append] at h
    simp only [Term.allTrue]
    refine (Term.stopsAt_eval t h.1).bind fun d => d.stopsAt_truth.bind fun b => ?_
    split
    · exact Term.stopsAt_allTrue ts h.2
    · exact .ok _

theorem Part.stopsAt_eval {s : Scope} :
    (p : Part) → (ends : Strip) → s.Covers P p.reads → StopsAt P (p.eval s ends)
  | .text _, _, _ => .ok _
  | .interpolation _ t, _, h => by
    simp only [Part.eval]
    exact (Term.stopsAt_eval t h).bind fun _ => .ok _
  | .branch _ test _ yes _ no, _, h => by
    simp only [Part.reads, Scope.covers_append] at h
    simp only [Part.eval]
    refine (Term.stopsAt_eval test h.1.1).bind fun d => d.stopsAt_truth.bind fun b => ?_
    split
    · exact Part.stopsAt_evalList yes _ h.1.2
    · exact Part.stopsAt_evalList no _ h.2
  | .loop _ names source _ body, _, h => by
    simp only [Part.reads, Scope.covers_append] at h
    simp only [Part.eval]
    refine (Term.stopsAt_eval source h.1).bind fun d => d.stopsAt_rounds.bind fun rounds => ?_
    exact (StopsAt.mapM (fun item => Part.stopsAt_evalList body _ (h.2.enter item)) rounds).bind
      fun _ => .ok _

theorem Part.stopsAt_evalList {s : Scope} :
    (ps : List Part) → (ends : Strip) → s.Covers P (Part.listReads ps) →
      StopsAt P (Part.evalList s ends ps)
  | [], _, _ => .ok _
  | p :: ps, ends, h => by
    simp only [Part.listReads, Scope.covers_append] at h
    simp only [Part.evalList]
    exact (Part.stopsAt_eval p _ h.1).bind fun _ => (Part.stopsAt_evalList ps _ h.2).bind
      fun _ => .ok _

theorem Accessor.stopsAt_evalList {s : Scope} :
    (as : List Accessor) → (d : Datum) → s.Covers P (Accessor.listReads as) →
      StopsAt P (Accessor.evalList s d as)
  | [], d, _ => .ok d
  | .member name :: rest, d, h => by
    simp only [Accessor.evalList]
    exact (d.stopsAt_member name).bind fun x => Accessor.stopsAt_evalList rest x h
  | .position n :: rest, d, h => by
    simp only [Accessor.evalList]
    exact (d.stopsAt_position n).bind fun x => Accessor.stopsAt_evalList rest x h
  | .index key :: rest, d, h => by
    simp only [Accessor.listReads, Accessor.reads, Scope.covers_append] at h
    simp only [Accessor.evalList]
    exact (Term.stopsAt_eval key h.1).bind fun k => (d.stopsAt_index k).bind fun x =>
      Accessor.stopsAt_evalList rest x h.2
  | .eachMember names :: rest, d, h => by
    simp only [Accessor.evalList]
    exact (StopsAt.mapM (fun d => d.stopsAt_members names) d.spread).bind fun _ =>
      Accessor.stopsAt_evalList rest _ h
  | .each :: rest, d, h => by
    simp only [Accessor.evalList]
    exact (StopsAt.mapM (fun d => Accessor.stopsAt_evalList rest d h) d.spread).bind fun _ => .ok _
end

end PipelineResolution
