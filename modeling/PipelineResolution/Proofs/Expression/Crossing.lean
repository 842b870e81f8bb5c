import Mathlib.Algebra.Ring.Int.Defs
import PipelineResolution.Proofs.Expression.Completeness
import PipelineResolution.Proofs.Step.Sufficiency
import PipelineResolution.Proofs.Value

/-!
# Values cross evaluation unchanged

A value becomes a datum when a term reads it and a value again when the term is done. On the way its
whole numbers are integers of a word where they fit one, and its maps are objects that are sorted
anew. Neither is seen afterwards: a reference gives the value that its name is bound to, and a path
of keys and positions the element that it leads to.
-/
namespace PipelineResolution

namespace Numeral

/-- A number that becomes a numeral and a number again is the same number, save for the sign of
zero. -/
theorem toNumber_ofNumber {x : Number} (finite : x.isFinite = true) :
    (ofNumber x).toNumber.equals x = true := by
  unfold ofNumber
  split
  · rename_i k whole
    split
    · unfold ofInt
      split
      · exact Number.equals_ofInt whole
      · have natural : ((k.toNat : Nat) : Int) = k := by omega
        rw [toNumber, natural]
        exact Number.equals_ofInt whole
    · exact Number.equals_self finite
  · exact Number.equals_self finite

end Numeral

namespace Value

mutual
/-- Whether the keys of every map in a value are in order. -/
def isOrdered : Value → Bool
  | .null | .bool _ | .number _ | .string _ => true
  | .list items => listIsOrdered items
  | .map entries => decide (Dict.Sorted entries) && entriesAreOrdered entries

def listIsOrdered : List Value → Bool
  | [] => true
  | v :: vs => v.isOrdered && listIsOrdered vs

def entriesAreOrdered : List (String × Value) → Bool
  | [] => true
  | (_, v) :: vs => v.isOrdered && entriesAreOrdered vs
end

/-- A step from a value to a value inside it. -/
inductive Segment where
  | key (name : String)
  | position (n : Nat)

/-- The value that a step leads to. -/
def under? (v : Value) : Segment → Option Value
  | .key name => v.get? name
  | .position n => v.list? >>= (·[n]?)

/-- The value at the end of a path. -/
def at? (v : Value) : List Segment → Option Value
  | [] => some v
  | segment :: path => v.under? segment >>= (·.at? path)

end Value

namespace Value

theorem listIsFinite_eq_all (vs : List Value) : listIsFinite vs = vs.all isFinite := by
  induction vs with
  | nil => rfl
  | cons v vs ih => rw [listIsFinite, ih, List.all_cons]

theorem entriesAreFinite_eq_all (vs : List (String × Value)) :
    entriesAreFinite vs = vs.all (·.2.isFinite) := by
  induction vs with
  | nil => rfl
  | cons e vs ih => rw [entriesAreFinite, ih, List.all_cons]

theorem listIsOrdered_eq_all (vs : List Value) : listIsOrdered vs = vs.all isOrdered := by
  induction vs with
  | nil => rfl
  | cons v vs ih => rw [listIsOrdered, ih, List.all_cons]

theorem entriesAreOrdered_eq_all (vs : List (String × Value)) :
    entriesAreOrdered vs = vs.all (·.2.isOrdered) := by
  induction vs with
  | nil => rfl
  | cons e vs ih => rw [entriesAreOrdered, ih, List.all_cons]

/-- What a step leads to is as finite and as ordered as the whole. -/
theorem under?_preserves {v w : Value} {segment : Segment} (h : v.under? segment = some w)
    (finite : v.isFinite = true) (ordered : v.isOrdered = true) :
    w.isFinite = true ∧ w.isOrdered = true := by
  cases segment with
  | key name =>
    obtain ⟨entries, hm, found⟩ := Option.bind_eq_some_iff.1 h
    cases v <;> cases hm
    have mem := Dict.mem_of_get? found
    rw [isFinite, entriesAreFinite_eq_all] at finite
    rw [isOrdered, entriesAreOrdered_eq_all] at ordered
    exact ⟨List.all_eq_true.1 finite _ mem,
      List.all_eq_true.1 (Bool.and_eq_true_iff.1 ordered).2 _ mem⟩
  | position n =>
    obtain ⟨items, hl, found⟩ := Option.bind_eq_some_iff.1 h
    cases v <;> cases hl
    have mem := List.mem_of_getElem? found
    rw [isFinite, listIsFinite_eq_all] at finite
    rw [isOrdered, listIsOrdered_eq_all] at ordered
    exact ⟨List.all_eq_true.1 finite _ mem, List.all_eq_true.1 ordered _ mem⟩

theorem at?_preserves {path : List Segment} {v w : Value} (h : v.at? path = some w)
    (finite : v.isFinite = true) (ordered : v.isOrdered = true) :
    w.isFinite = true ∧ w.isOrdered = true := by
  induction path generalizing v with
  | nil =>
    cases h
    exact ⟨finite, ordered⟩
  | cons segment path ih =>
    obtain ⟨u, hu, rest⟩ := Option.bind_eq_some_iff.1 h
    obtain ⟨finite, ordered⟩ := under?_preserves hu finite ordered
    exact ih rest finite ordered

end Value

namespace Datum

/-- The keys of a map stay in their order. -/
theorem map_fst_toValues_ofValues (vs : List (String × Value)) :
    (entriesToValues (entriesOfValues vs)).map Prod.fst = vs.map Prod.fst := by
  induction vs with
  | nil => rfl
  | cons e vs ih => exact congrArg (e.1 :: ·) ih

mutual
/-- A value is still the same after it has been a datum. -/
theorem equals_toValue_ofValue : ∀ v : Value, v.isFinite = true → v.isOrdered = true →
    (ofValue v).toValue.equals v = true
  | .null, _, _ => rfl
  | .bool b, _, _ => beq_self_eq_true b
  | .number x, finite, _ => by
    rw [ofValue, if_pos (show x.isFinite = true from finite), toValue, Value.equals]
    exact Numeral.toNumber_ofNumber finite
  | .string s, _, _ => beq_self_eq_true s
  | .list items, finite, ordered => listEquals_toValues_ofValues items finite ordered
  | .map entries, finite, ordered => by
    obtain ⟨sorted, ordered⟩ := Bool.and_eq_true_iff.1 ordered
    have same : Dict.Sorted (entriesToValues (entriesOfValues entries)) := by
      have keys := List.pairwise_map.2 (of_decide_eq_true sorted)
      rw [← map_fst_toValues_ofValues entries] at keys
      exact List.pairwise_map.1 keys
    rw [ofValue, toValue, Value.equals, same.ofEntries_eq]
    exact entriesEqual_toValues_ofValues entries finite ordered

theorem listEquals_toValues_ofValues : ∀ vs : List Value, Value.listIsFinite vs = true →
    Value.listIsOrdered vs = true → Value.listEquals (listToValues (listOfValues vs)) vs = true
  | [], _, _ => rfl
  | v :: vs, finite, ordered => by
    obtain ⟨finite, finiteRest⟩ := Bool.and_eq_true_iff.1 finite
    obtain ⟨ordered, orderedRest⟩ := Bool.and_eq_true_iff.1 ordered
    exact Bool.and_eq_true_iff.2 ⟨equals_toValue_ofValue v finite ordered,
      listEquals_toValues_ofValues vs finiteRest orderedRest⟩

theorem entriesEqual_toValues_ofValues : ∀ vs : List (String × Value),
    Value.entriesAreFinite vs = true → Value.entriesAreOrdered vs = true →
    Value.entriesEqual (entriesToValues (entriesOfValues vs)) vs = true
  | [], _, _ => rfl
  | (k, v) :: vs, finite, ordered => by
    obtain ⟨finite, finiteRest⟩ := Bool.and_eq_true_iff.1 finite
    obtain ⟨ordered, orderedRest⟩ := Bool.and_eq_true_iff.1 ordered
    exact Bool.and_eq_true_iff.2 ⟨Bool.and_eq_true_iff.2 ⟨beq_self_eq_true k,
      equals_toValue_ofValue v finite ordered⟩,
      entriesEqual_toValues_ofValues vs finiteRest orderedRest⟩
end

theorem getElem?_listOfValues (vs : List Value) (n : Nat) :
    (listOfValues vs)[n]? = vs[n]?.map ofValue := by
  induction vs generalizing n with
  | nil => rfl
  | cons v vs ih =>
    cases n with
    | zero => rfl
    | succ n => exact ih n

theorem member_ofValue {v w : Value} {name : String} (h : v.get? name = some w) :
    (ofValue v).member name = .ok (ofValue w) := by
  obtain ⟨entries, hm, found⟩ := Option.bind_eq_some_iff.1 h
  cases v <;> cases hm
  rw [ofValue]
  simp only [member, lookup_entriesOfValues, found, Option.map_some]

theorem position_ofValue {v w : Value} {n : Nat} (h : v.under? (.position n) = some w) :
    (ofValue v).position n = .ok (ofValue w) := by
  obtain ⟨items, hl, found⟩ := Option.bind_eq_some_iff.1 h
  cases v <;> cases hl
  rw [ofValue]
  simp only [position, getElem?_listOfValues, found, Option.map_some]

end Datum

/-- Whether an accessor names a step as it is written: a key as a name or a text, a position as a
number. -/
inductive Accessor.Spells : Accessor → Value.Segment → Prop
  | member (name : String) : Spells (.member name) (.key name)
  | text (name : String) : Spells (.index (.string name)) (.key name)
  | position (n : Nat) : Spells (.position n) (.position n)
  | number {m : Numeral} {n : Nat} (natural : m.index? = some n) :
    Spells (.index (.number m)) (.position n)

/-- An accessor leads from the datum of a value to the datum of the value that its step leads to. -/
theorem Accessor.evalList_cons_of_spells {s : Scope} {a : Accessor} {segment : Value.Segment}
    {v w : Value} (spells : a.Spells segment) (h : v.under? segment = some w)
    (rest : List Accessor) :
    Accessor.evalList s (Datum.ofValue v) (a :: rest) =
      Accessor.evalList s (Datum.ofValue w) rest := by
  cases spells with
  | member name =>
    rw [Accessor.evalList, Datum.member_ofValue h]
    rfl
  | text name =>
    rw [Accessor.evalList, Term.eval]
    change Datum.member _ name >>= _ = _
    rw [Datum.member_ofValue h]
    rfl
  | position n =>
    rw [Accessor.evalList, Datum.position_ofValue h]
    rfl
  | number natural =>
    rw [Accessor.evalList, Term.eval]
    change Datum.index _ (.number _) >>= _ = _
    simp only [Datum.index, natural]
    rw [Datum.position_ofValue h]
    rfl

theorem Accessor.evalList_ofValue {s : Scope} {accessors : List Accessor}
    {path : List Value.Segment} (spells : List.Forall₂ Accessor.Spells accessors path) {v w : Value}
    (h : v.at? path = some w) :
    Accessor.evalList s (Datum.ofValue v) accessors = .ok (Datum.ofValue w) := by
  induction spells generalizing v with
  | nil =>
    cases h
    rw [Accessor.evalList]
  | cons first _ ih =>
    obtain ⟨u, hu, rest⟩ := Option.bind_eq_some_iff.1 h
    rw [Accessor.evalList_cons_of_spells first hu]
    exact ih rest

theorem Accessor.listReads_of_spells {accessors : List Accessor} {path : List Value.Segment}
    (spells : List.Forall₂ Accessor.Spells accessors path) :
    Accessor.listReads accessors = [] := by
  induction spells with
  | nil => rw [Accessor.listReads]
  | cons first _ ih =>
    rw [Accessor.listReads, ih, List.append_nil]
    cases first <;> rfl

namespace Expression
variable {env : Environment} {x : String} {v : Value}

/-- A term that reads nothing but `x` is evaluated where `x` is bound. -/
theorem evaluate_term_of_reads {t : Term} (reads : ∀ r ∈ t.reads, r.root = x)
    (bound : env.get? x = some v) : (term t).evaluate env = (term t).eval env .brief := by
  refine evaluate_of_bound fun name hn => ?_
  obtain ⟨r, hr, rfl⟩ := mem_roots.1 hn
  obtain ⟨read, hread, root⟩ := t.rooted r hr
  rw [← root, reads read hread]
  exact Environment.binds_iff.2 ⟨v, bound⟩

/-- Where no later name is spelled as `x`, a reference to `x` gives the value that `x` is
bound to, and a path of keys and positions after it gives the element that it leads to. -/
theorem evaluate_path (sorted : env.bindings.Sorted) (identifier : Text.identifierOf x = x)
    (plain : env.Plain [x]) (bound : env.get? x = some v) (finite : v.isFinite = true)
    (ordered : v.isOrdered = true) :
    (∃ v', (term (.variable x)).evaluate env = .ok v' ∧ v'.equals v = true) ∧
    ∀ (accessors : List Accessor) (path : List Value.Segment) (w : Value),
      List.Forall₂ Accessor.Spells accessors path → v.at? path = some w →
        ∃ w', (term (.access (.variable x) accessors)).evaluate env = .ok w' ∧
          w'.equals w = true := by
  have seen : env.scope.get? x = some (Datum.ofValue v) := by
    rw [Environment.get?_scope, plain.find?_eq sorted List.mem_cons_self identifier bound]
    rfl
  constructor
  · have reads : ∀ r ∈ (Term.variable x).reads, r.root = x := by simp [Term.reads]
    refine ⟨_, ?_, Datum.equals_toValue_ofValue v finite ordered⟩
    rw [evaluate_term_of_reads reads bound, eval, Term.eval, seen]
  · intro accessors path w spells h
    have reads : ∀ r ∈ (Term.access (.variable x) accessors).reads, r.root = x := by
      simp [Term.reads, Accessor.listReads_of_spells spells]
    obtain ⟨finite, ordered⟩ := Value.at?_preserves h finite ordered
    refine ⟨_, ?_, Datum.equals_toValue_ofValue w finite ordered⟩
    have led : (Term.access (.variable x) accessors).eval env.scope = .ok (Datum.ofValue w) := by
      rw [Term.eval, Term.eval, seen]
      exact Accessor.evalList_ofValue spells h
    rw [evaluate_term_of_reads reads bound, eval, led]

/-- A number beyond the unsigned words, at a key of an element of a list. An earlier name is spelled
alike. -/
theorem evaluate_path_wide :
    Value.at? (.list [.null, .map [("k", .ofInt (2 ^ 64))]]) [.position 1, .key "k"] =
      some (.ofInt (2 ^ 64)) ∧
    ∃ w, (term (.access (.variable "a_b") [.position 1, .member "k"])).evaluate
        ⟨[("a b", .null), ("a_b", .list [.null, .map [("k", .ofInt (2 ^ 64))]])]⟩ = .ok w ∧
      w.equals (.ofInt (2 ^ 64)) = true := by
  have finite : (Value.list [.null, .map [("k", .ofInt (2 ^ 64))]]).isFinite = true := by
    decide +kernel
  exact ⟨rfl, (evaluate_path (by decide) (by decide) (by decide) rfl finite (by decide)).2 _ _ _
    (.cons (.position 1) (.cons (.member "k") .nil)) rfl⟩

/-- A later name that is spelled as `a_b` takes its place. -/
theorem not_evaluate_reference :
    ¬∀ (env : Environment) (x : String) (v : Value), env.bindings.Sorted →
      Text.identifierOf x = x → env.get? x = some v → v.isFinite = true → v.isOrdered = true →
      ∃ v', (term (.variable x)).evaluate env = .ok v' ∧ v'.equals v = true := by
  intro h
  have hidden : (term (.variable "a_b")).evaluate ⟨[("a_b", .null), ("a~b", .bool true)]⟩ =
      .ok (.bool true) := by rfl
  obtain ⟨v', evaluated, same⟩ := h ⟨[("a_b", .null), ("a~b", .bool true)]⟩ "a_b" .null
    (by decide) (by decide) rfl rfl rfl
  rw [hidden] at evaluated
  cases evaluated
  cases same

end Expression
end PipelineResolution
