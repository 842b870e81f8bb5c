import Mathlib.Data.List.Nodup
import PipelineResolution.Dict

/-!
# What sorted dictionaries hold

A sorted dictionary has one entry for a key, so it is told by its look-ups, and entries with keys of
their own make the same dictionary in any order.
-/
namespace PipelineResolution

namespace Dict
variable {α : Type u} {d : Dict α}

theorem get?_eq_none_of_lt {key : String} (h : ∀ e ∈ d, key < e.1) : d.get? key = none := by
  induction d with
  | nil => rfl
  | cons e d ih =>
    obtain ⟨he, hd⟩ := List.forall_mem_cons.1 h
    have hne : e.1 ≠ key := fun hk => String.lt_irrefl key (by rwa [hk] at he)
    rw [get?, if_neg hne]
    exact ih hd

theorem mem_of_get? {key : String} {value : α} (h : d.get? key = some value) :
    (key, value) ∈ d := by
  induction d with
  | nil => cases h
  | cons e d ih =>
    obtain ⟨k, v⟩ := e
    unfold get? at h
    split at h
    · rename_i hk
      cases h
      exact hk ▸ List.mem_cons_self
    · exact List.mem_cons_of_mem _ (ih h)

instance (d : Dict α) : Decidable d.Sorted :=
  inferInstanceAs (Decidable (List.Pairwise (fun a b => a.1 < b.1) d))

/-- A sorted dictionary has at most one entry with a key. -/
theorem Sorted.filter_key (hd : d.Sorted) (key : String) :
    d.filter (·.1 == key) = ((d.get? key).map (key, ·)).toList := by
  induction d with
  | nil => rfl
  | cons e d ih =>
    obtain ⟨k, v⟩ := e
    obtain ⟨hk, ht⟩ := List.pairwise_cons.1 hd
    by_cases h : k = key
    · subst h
      rw [List.filter_cons_of_pos (by simp), ih ht, get?_eq_none_of_lt hk]
      simp [get?]
    · rw [List.filter_cons_of_neg (by simpa using h), ih ht, get?, if_neg h]

/-- An insertion is not seen by what passes over its key. -/
theorem filter_insert {keep : String × α → Bool} {key : String}
    (h : ∀ value, keep (key, value) = false) (d : Dict α) (value : α) :
    (d.insert key value).filter keep = d.filter keep := by
  induction d with
  | nil => simp [insert, h]
  | cons e d ih =>
    obtain ⟨k, v⟩ := e
    unfold insert
    split
    · rw [List.filter_cons_of_neg (by simp [h])]
    · split
      · rename_i hk
        subst hk
        rw [List.filter_cons_of_neg (by simp [h]), List.filter_cons_of_neg (by simp [h])]
      · rw [List.filter_cons, List.filter_cons, ih]

theorem insert_of_forall_lt {key : String} {value : α} (h : ∀ entry ∈ d, key < entry.1) :
    d.insert key value = (key, value) :: d := by
  cases d with
  | nil => rfl
  | cons entry d => exact if_pos (h entry List.mem_cons_self)

/-- An insertion of a key that is kept passes through a filter. -/
theorem Sorted.filter_insert_of_keep {keep : String → Bool} {key : String} (hd : d.Sorted)
    (kept : keep key = true) (value : α) : (d.insert key value).filter (keep ·.1) =
      Dict.insert (d.filter (keep ·.1)) key value := by
  induction d with
  | nil => simp [Dict.insert, kept]
  | cons entry d ih =>
    obtain ⟨k, v⟩ := entry
    obtain ⟨hk, hd⟩ := List.pairwise_cons.1 hd
    by_cases before : key < k
    · have above : ∀ entry ∈ List.filter (keep ·.1) ((k, v) :: d), key < entry.1 := by
        intro entry he
        rcases List.mem_cons.1 (List.mem_filter.1 he).1 with rfl | he
        · exact before
        · exact String.lt_trans before (hk entry he)
      rw [insert_of_forall_lt above, Dict.insert, if_pos before]
      exact List.filter_cons_of_pos kept
    · by_cases same : k = key
      · subst same
        rw [Dict.insert, if_neg before, if_pos rfl]
        simp [kept, Dict.insert]
      · rw [Dict.insert, if_neg before, if_neg same]
        by_cases hkeep : keep k = true
        · simp [hkeep, Dict.insert, before, same, ih hd]
        · simp [hkeep, ih hd]

theorem Sorted.get?_of_mem (hd : d.Sorted) {key : String} {value : α}
    (h : (key, value) ∈ d) : d.get? key = some value := by
  have hf : (key, value) ∈ d.filter (·.1 == key) := List.mem_filter.2 ⟨h, beq_self_eq_true key⟩
  rw [hd.filter_key] at hf
  simpa using hf

/-- The entry with the greatest key stands last. -/
theorem Sorted.getLast?_eq (hd : d.Sorted) {key : String} {value : α} (mem : (key, value) ∈ d)
    (greatest : ∀ e ∈ d, e.1 ≤ key) : List.getLast? d = some (key, value) := by
  obtain ⟨front, last, rfl⟩ := List.eq_nil_or_concat' d |>.resolve_left (List.ne_nil_of_mem mem)
  have before : (key, value) ∉ front := fun h =>
    String.not_lt.2 (greatest last (by simp))
      ((List.pairwise_append.1 hd).2.2 _ h last List.mem_cons_self)
  have same := (List.mem_append.1 mem).resolve_left before
  rw [List.mem_singleton.1 same, List.getLast?_concat]

theorem Sorted.le_of_getLast? (hd : d.Sorted) {last e : String × α}
    (h : List.getLast? d = some last) (mem : e ∈ d) : e.1 ≤ last.1 := by
  obtain ⟨front, rfl⟩ := List.getLast?_eq_some_iff.1 h
  rcases List.mem_append.1 mem with he | he
  · exact String.not_lt.1
      (String.lt_asymm ((List.pairwise_append.1 hd).2.2 e he last List.mem_cons_self))
  · obtain rfl := List.mem_singleton.1 he
    exact String.le_refl _

/-- Sorted dictionaries with the same entries are equal. -/
theorem Sorted.eq_of_mem_iff {d' : Dict α} (hd : d.Sorted) (hd' : d'.Sorted)
    (h : ∀ e, e ∈ d ↔ e ∈ d') : d = d' := by
  have nodup {d : Dict α} (hd : d.Sorted) : List.Nodup d := by
    refine List.Pairwise.imp (fun {a b} hlt heq => ?_) hd
    rw [heq] at hlt
    exact String.lt_irrefl _ hlt
  refine ((List.perm_ext_iff_of_nodup (nodup hd) (nodup hd')).2 h).eq_of_pairwise ?_ hd hd'
  intro a b _ _ hab hba
  exact absurd (String.lt_trans hab hba) (String.lt_irrefl _)

/-- Sorted dictionaries are equal when every look-up is. -/
theorem Sorted.ext {d' : Dict α} (hd : d.Sorted) (hd' : d'.Sorted)
    (h : ∀ key, d.get? key = d'.get? key) : d = d' := by
  refine hd.eq_of_mem_iff hd' fun ⟨key, value⟩ => ⟨fun he => ?_, fun he => ?_⟩
  · exact mem_of_get? ((h key).symm.trans (hd.get?_of_mem he))
  · exact mem_of_get? ((h key).trans (hd'.get?_of_mem he))

theorem Sorted.insert_insert (hd : d.Sorted) (key : String) (v w : α) :
    (d.insert key v).insert key w = d.insert key w := by
  refine ((hd.insert key v).insert key w).ext (hd.insert key w) fun other => ?_
  simp only [get?_insert]
  split <;> rfl

theorem Sorted.insert_comm (hd : d.Sorted) {k l : String} (ne : k ≠ l) (v w : α) :
    (d.insert k v).insert l w = (d.insert l w).insert k v := by
  refine ((hd.insert k v).insert l w).ext ((hd.insert l w).insert k v) fun other => ?_
  simp only [get?_insert]
  split <;> split <;> simp_all

/-- Of the entries with one key the last counts. -/
theorem get?_ofEntries_eq_getLast? (entries : List (String × α)) (key : String) :
    (ofEntries entries).get? key = (entries.filter (·.1 == key)).getLast?.map (·.2) := by
  suffices h : ∀ d : Dict α, (entries.foldl (fun d e => d.insert e.1 e.2) d).get? key =
      ((entries.filter (·.1 == key)).getLast?.map (·.2)).or (d.get? key) from
    (h []).trans Option.or_none
  induction entries with
  | nil => exact fun d => rfl
  | cons e entries ih =>
    intro d
    rw [List.foldl_cons, ih, get?_insert]
    by_cases same : e.1 = key
    · rw [if_pos same, List.filter_cons_of_pos (by simpa using same), List.getLast?_cons]
      cases (entries.filter (·.1 == key)).getLast? <;> rfl
    · rw [if_neg same, List.filter_cons_of_neg (by simpa using same)]

/-- Where no key is given twice, a dictionary has exactly the entries that it is made of. -/
theorem get?_ofEntries {entries : List (String × α)} (distinct : (entries.map Prod.fst).Nodup)
    {key : String} {value : α} :
    (ofEntries entries).get? key = some value ↔ (key, value) ∈ entries := by
  have found {e : String × α} (he : e ∈ entries.filter (·.1 == key)) : e ∈ entries ∧ e.1 = key := by
    simpa using he
  rw [get?_ofEntries_eq_getLast?]
  constructor
  · intro h
    obtain ⟨e, last, rfl⟩ := Option.map_eq_some_iff.1 h
    obtain ⟨he, rfl⟩ := found (List.mem_of_getLast? last)
    exact he
  · intro h
    cases last : (entries.filter (·.1 == key)).getLast? with
    | none =>
      have absent := List.filter_eq_nil_iff.1 (List.getLast?_eq_none_iff.1 last) _ h
      exact absurd (beq_self_eq_true key) absent
    | some e =>
      obtain ⟨he, same⟩ := found (List.mem_of_getLast? last)
      rw [List.inj_on_of_nodup_map distinct he h same]
      rfl

/-- Sorted entries are the dictionary that they make. -/
theorem Sorted.ofEntries_eq (hd : d.Sorted) : ofEntries d = d := by
  have distinct : (List.map Prod.fst d).Nodup := by
    refine List.pairwise_map.2 (List.Pairwise.imp (fun {a b} hlt heq => ?_) hd)
    rw [heq] at hlt
    exact String.lt_irrefl _ hlt
  refine (sorted_ofEntries d).ext hd fun key => ?_
  ext value
  rw [get?_ofEntries distinct]
  exact ⟨hd.get?_of_mem, mem_of_get?⟩

theorem ofEntries_perm {entries entries' : List (String × α)}
    (distinct : (entries.map Prod.fst).Nodup) (same : entries.Perm entries') :
    ofEntries entries = ofEntries entries' := by
  have distinct' := (same.map Prod.fst).nodup_iff.1 distinct
  refine (sorted_ofEntries entries).ext (sorted_ofEntries entries') fun key => ?_
  ext value
  rw [get?_ofEntries distinct, get?_ofEntries distinct', same.mem_iff]

end Dict
end PipelineResolution
