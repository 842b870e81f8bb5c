import PipelineResolution.Number.Word

/-!
# Cutting texts

Blanks are the characters of the Unicode property `White_Space`. Cuts are stated on lists of
characters; `cut_append` says that cutting loses nothing.
-/
namespace PipelineResolution.Text

def isBlank (c : Char) : Bool :=
  let n := c.toNat
  (9 ≤ n && n ≤ 13) || n == 0x20 || n == 0x85 || n == 0xa0 || n == 0x1680
    || (0x2000 ≤ n && n ≤ 0x200a) || n == 0x2028 || n == 0x2029 || n == 0x202f || n == 0x205f
    || n == 0x3000

def dropBlankEnd (s : List Char) : List Char := (s.reverse.dropWhile isBlank).reverse

def trimChars (s : List Char) : List Char := dropBlankEnd (s.dropWhile isBlank)

def trim (s : String) : String := String.ofList (trimChars s.toList)

/-- The maximal pieces of a text that satisfy a test. -/
def pieces (keep : Char → Bool) (s : List Char) : List (List Char) :=
  let (last, done) := s.foldr
    (fun c (current, done) =>
      if keep c then (c :: current, done)
      else ([], if current.isEmpty then done else current :: done)) ([], [])
  if last.isEmpty then done else last :: done

/-- The words of a text: its maximal pieces without blanks. -/
def words (s : String) : List String :=
  (pieces (!isBlank ·) s.toList).map String.ofList

/-- What follows a given start of a text. -/
def afterStart? : List Char → List Char → Option (List Char)
  | [], s => some s
  | _ :: _, [] => none
  | p :: ps, c :: s => if p = c then afterStart? ps s else none

/-- The text before and after the first occurrence of a separator. -/
def cutChars (sep : List Char) : List Char → Option (List Char × List Char)
  | [] => if sep.isEmpty then some ([], []) else none
  | c :: s =>
    match afterStart? sep (c :: s) with
    | some rest => some ([], rest)
    | none => (cutChars sep s).map fun (a, b) => (c :: a, b)

def cut (sep : String) (s : String) : Option (String × String) :=
  (cutChars sep.toList s.toList).map fun (a, b) => (String.ofList a, String.ofList b)

/-- The text before and after the last occurrence of a character. -/
def cutLast (sep : Char) (s : String) : Option (String × String) :=
  (cutChars [sep] s.toList.reverse).map fun (a, b) =>
    (String.ofList b.reverse, String.ofList a.reverse)

def dropStart? (start s : String) : Option String :=
  (afterStart? start.toList s.toList).map String.ofList

def contains (s part : String) : Bool := (cut part s).isSome

theorem afterStart?_append {start s rest : List Char} (h : afterStart? start s = some rest) :
    s = start ++ rest := by
  induction start generalizing s with
  | nil => simpa [afterStart?] using h
  | cons p ps ih =>
    cases s with
    | nil => simp [afterStart?] at h
    | cons c s =>
      by_cases hc : p = c
      · simp only [afterStart?, hc, if_true] at h
        simp [hc, ih h]
      · simp [afterStart?, hc] at h

theorem cut_append {sep s a b : List Char} (h : cutChars sep s = some (a, b)) :
    s = a ++ sep ++ b := by
  induction s generalizing a b with
  | nil =>
    cases sep with
    | nil => simp [cutChars] at h; simp [h]
    | cons p ps => simp [cutChars] at h
  | cons c s ih =>
    unfold cutChars at h
    split at h
    · rename_i rest hr
      simp only [Option.some.injEq, Prod.mk.injEq] at h
      obtain ⟨rfl, rfl⟩ := h
      simpa using afterStart?_append hr
    · cases hs : cutChars sep s with
      | none => simp [hs] at h
      | some p =>
        obtain ⟨a', b'⟩ := p
        simp only [hs, Option.map_some, Option.some.injEq, Prod.mk.injEq] at h
        obtain ⟨rfl, rfl⟩ := h
        simp [ih hs]

theorem afterStart?_self (start rest : List Char) :
    afterStart? start (start ++ rest) = some rest := by
  induction start with
  | nil => rfl
  | cons p ps ih => simpa [afterStart?] using ih

theorem cutChars_self {sep : List Char} (some : sep ≠ []) (rest : List Char) :
    cutChars sep (sep ++ rest) = .some ([], rest) := by
  obtain ⟨p, ps, rfl⟩ := List.exists_cons_of_ne_nil some
  rw [List.cons_append, cutChars, ← List.cons_append, afterStart?_self]

/-- What follows any occurrence of a separator follows its first one. -/
theorem suffix_of_cutChars (sep before rest : List Char) :
    ∃ a b, cutChars sep (before ++ sep ++ rest) = some (a, b) ∧ rest <:+ b := by
  induction before with
  | nil =>
    cases sep with
    | nil =>
      cases rest with
      | nil => exact ⟨[], [], rfl, List.suffix_rfl⟩
      | cons c rest => exact ⟨[], c :: rest, rfl, List.suffix_rfl⟩
    | cons p ps => exact ⟨[], rest, cutChars_self (List.cons_ne_nil p ps) rest, List.suffix_rfl⟩
  | cons c before ih =>
    obtain ⟨a, b, cut, suffix⟩ := ih
    simp only [List.cons_append, cutChars]
    cases start : afterStart? sep (c :: (before ++ sep ++ rest)) with
    | none => exact ⟨c :: a, b, by rw [cut, Option.map_some], suffix⟩
    | some b' =>
      refine ⟨[], b', rfl, ?_⟩
      -- The separator at the start ends no later than the occurrence inside does.
      have whole : sep ++ b' = c :: before ++ (sep ++ rest) := by
        rw [← afterStart?_append start, List.cons_append, List.append_assoc]
      have outer : rest <:+ sep ++ b' := by
        rw [whole, ← List.append_assoc]
        exact List.suffix_append _ _
      refine List.suffix_of_suffix_length_le outer (List.suffix_append sep b') ?_
      have := congrArg List.length whole
      simp only [List.length_append, List.length_cons] at this
      omega

/-- Where its first character does not stand before it, a separator is found. -/
theorem cutChars_of_head_notMem {c : Char} {before : List Char} (absent : c ∉ before)
    (sep rest : List Char) :
    cutChars (c :: sep) (before ++ (c :: sep ++ rest)) = some (before, rest) := by
  induction before with
  | nil => exact cutChars_self (List.cons_ne_nil c sep) rest
  | cons d before ih =>
    simp only [List.mem_cons, not_or] at absent
    obtain ⟨apart, absent⟩ := absent
    rw [List.cons_append, cutChars, ih absent]
    simp [afterStart?, apart]

theorem cutChars_of_notMem {c : Char} {before : List Char} (absent : c ∉ before)
    (rest : List Char) : cutChars [c] (before ++ c :: rest) = some (before, rest) :=
  cutChars_of_head_notMem absent [] rest

theorem dropStart?_self (start rest : String) : dropStart? start (start ++ rest) = some rest := by
  rw [dropStart?, String.toList_append, afterStart?_self, Option.map_some, String.ofList_toList]

theorem eq_of_dropStart? {start s rest : String} (h : dropStart? start s = some rest) :
    s = start ++ rest := by
  obtain ⟨cs, hc, rfl⟩ := Option.map_eq_some_iff.1 h
  refine String.toList_inj.1 ?_
  rw [afterStart?_append hc, String.toList_append, String.toList_ofList]

theorem eq_of_cut {sep s a b : String} (h : cut sep s = some (a, b)) : s = a ++ sep ++ b := by
  obtain ⟨⟨cs, ds⟩, hc, heq⟩ := Option.map_eq_some_iff.1 h
  cases heq
  refine String.toList_inj.1 ?_
  rw [cut_append hc]
  simp

theorem eq_of_cutLast {sep : Char} {s a b : String} (h : cutLast sep s = some (a, b)) :
    s = a ++ String.ofList [sep] ++ b := by
  obtain ⟨⟨cs, ds⟩, hc, heq⟩ := Option.map_eq_some_iff.1 h
  cases heq
  refine String.toList_inj.1 ?_
  rw [← List.reverse_inj, cut_append hc]
  simp

/-- A non-empty run of ASCII digits as a number. -/
def digitsToNat? (s : List Char) : Option Nat :=
  if s.isEmpty || !s.all Char.isDigit then none
  else some (s.foldl (fun n c => n * 10 + (c.toNat - '0'.toNat)) 0)

def hexDigit? (c : Char) : Option Nat :=
  if c.isDigit then some (c.toNat - 48)
  else if 'a' ≤ c && c ≤ 'f' then some (c.toNat - 87)
  else if 'A' ≤ c && c ≤ 'F' then some (c.toNat - 55)
  else none

/-- An integer of a signed 64-bit word, written as digits after at most one sign. -/
def word? (s : List Char) : Option Int := do
  let n : Int ← match s with
    | '-' :: digits => (digitsToNat? digits).map fun n => -(n : Int)
    | '+' :: digits => (digitsToNat? digits).map Int.ofNat
    | digits => (digitsToNat? digits).map Int.ofNat
  if Word.isSigned n then some n else none

end PipelineResolution.Text
