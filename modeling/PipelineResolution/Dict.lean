/-!
# Dictionaries

A dictionary lists its entries in strictly increasing key order, so equal dictionaries are equal
lists. `get?_insert` says what an insertion does to every look-up and `Sorted.insert` that it keeps
the order.
-/
namespace PipelineResolution

/-- Entries by key, in key order. -/
abbrev Dict (α : Type u) := List (String × α)

namespace Dict
variable {α : Type u} {β : Type v}

def get? : Dict α → String → Option α
  | [], _ => none
  | (k, v) :: d, key => if k = key then some v else get? d key

def contains (d : Dict α) (key : String) : Bool := (d.get? key).isSome

/-- The dictionary with `value` under `key`, whatever was there before. -/
def insert : Dict α → String → α → Dict α
  | [], key, value => [(key, value)]
  | (k, v) :: d, key, value =>
    if key < k then (key, value) :: (k, v) :: d
    else if k = key then (key, value) :: d
    else (k, v) :: insert d key value

/-- The dictionary of some entries; of two entries with one key the later counts. -/
def ofEntries (entries : List (String × α)) : Dict α :=
  entries.foldl (fun d (k, v) => d.insert k v) []

def keys (d : Dict α) : List String := List.map Prod.fst d

def values (d : Dict α) : List α := List.map Prod.snd d

def mapValues (f : α → β) (d : Dict α) : Dict β := List.map (fun (k, v) => (k, f v)) d

theorem get?_insert (d : Dict α) (key other : String) (value : α) :
    (d.insert key value).get? other = if key = other then some value else d.get? other := by
  induction d with
  | nil => simp [insert, get?]
  | cons e d ih =>
    obtain ⟨k, v⟩ := e
    unfold insert
    by_cases h1 : key < k
    · rw [if_pos h1]
      rfl
    · rw [if_neg h1]
      by_cases h2 : k = key
      · subst h2
        by_cases ho : k = other <;> simp [get?, ho]
      · rw [if_neg h2]
        by_cases ho : k = other
        · subst ho
          simp [get?, Ne.symm h2]
        · simp [get?, ho, ih]

theorem contains_eq_false {d : Dict α} {key : String} : d.contains key = false ↔ d.get? key = none := by
  unfold contains
  cases d.get? key <;> simp

theorem contains_insert (d : Dict α) (key other : String) (value : α) :
    (d.insert key value).contains other = (decide (key = other) || d.contains other) := by
  unfold contains
  rw [get?_insert]
  by_cases h : key = other <;> simp [h]

def Sorted (d : Dict α) : Prop := List.Pairwise (fun a b => a.1 < b.1) d

theorem mem_insert {d : Dict α} {key : String} {value : α} {e : String × α}
    (h : e ∈ d.insert key value) : e = (key, value) ∨ e ∈ d := by
  induction d with
  | nil => exact .inl (List.mem_singleton.1 h)
  | cons f d ih =>
    obtain ⟨k, v⟩ := f
    unfold insert at h
    split at h
    · rcases List.mem_cons.1 h with rfl | h
      · exact .inl rfl
      · exact .inr h
    · split at h
      · rcases List.mem_cons.1 h with rfl | h
        · exact .inl rfl
        · exact .inr (List.mem_cons_of_mem _ h)
      · rcases List.mem_cons.1 h with rfl | h
        · exact .inr List.mem_cons_self
        · exact (ih h).imp_right (List.mem_cons_of_mem _)

theorem Sorted.insert {d : Dict α} (hd : d.Sorted) (key : String) (value : α) :
    (d.insert key value).Sorted := by
  induction d with
  | nil => simp [Sorted, Dict.insert]
  | cons e d ih =>
    obtain ⟨k, v⟩ := e
    have hk := (List.pairwise_cons.1 hd).1
    have ht := (List.pairwise_cons.1 hd).2
    unfold Dict.insert
    split
    · rename_i hlt
      refine List.pairwise_cons.2 ⟨fun f hf => ?_, hd⟩
      rcases List.mem_cons.1 hf with rfl | hf
      · exact hlt
      · exact String.lt_trans hlt (hk f hf)
    · rename_i hge
      split
      · rename_i heq
        exact List.pairwise_cons.2 ⟨fun f hf => heq ▸ hk f hf, ht⟩
      · rename_i hne
        refine List.pairwise_cons.2 ⟨fun f hf => ?_, ih ht⟩
        rcases mem_insert hf with hf | hf
        · rw [hf]
          exact Decidable.by_contra fun hn =>
            hne (String.le_antisymm (String.not_lt.1 hge) (String.not_lt.1 hn))
        · exact hk f hf

theorem sorted_ofEntries (entries : List (String × α)) : (ofEntries entries).Sorted := by
  suffices h : ∀ d : Dict α, d.Sorted →
      (entries.foldl (fun d (k, v) => d.insert k v) d).Sorted from h [] .nil
  induction entries with
  | nil => exact fun d hd => hd
  | cons e entries ih => exact fun d hd => ih _ (hd.insert e.1 e.2)

end Dict
end PipelineResolution
