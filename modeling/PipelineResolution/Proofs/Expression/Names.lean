import PipelineResolution.Document.Decode
import PipelineResolution.Proofs.Expression.Reads
import PipelineResolution.Proofs.Failing
import PipelineResolution.Proofs.Reading

/-!
# Names are identifiers

Whatever a text spells, the names that it reads are identifiers as they stand, the roots of its
references among them: looking one up does not spell it anew. Every rule of the grammar keeps this,
so it holds at every depth, and decoding a document keeps it too.
-/
namespace PipelineResolution
open Reading

namespace Text

/-- A name that stands for itself. -/
def IsIdentifier (name : String) : Prop := identifierOf name = name

theorem isIdentifierRest_of_start {c : Char} (h : isIdentifierStart c = true) :
    isIdentifierRest c = true := by
  unfold isIdentifierStart at h
  unfold isIdentifierRest Char.isAlphanum
  simp only [Bool.or_eq_true, Bool.and_eq_true] at h ⊢
  rcases h with (h | h) | ⟨h, h'⟩
  · exact .inl (.inl (.inl (.inl h)))
  · exact .inl (.inl (.inr h))
  · exact .inr ⟨h, .inl h'⟩

theorem isIdentifier_ofList {c : Char} {cs : List Char} (hc : isIdentifierStart c = true)
    (hs : ∀ d ∈ cs, isIdentifierRest d = true) : IsIdentifier (String.ofList (c :: cs)) := by
  have hmap : cs.map (fun d => if isIdentifierRest d then d else '_') = cs :=
    (List.map_congr_left fun d hd => if_pos (hs d hd)).trans (List.map_id' cs)
  unfold IsIdentifier identifierOf
  rw [String.toList_ofList, List.map_cons, if_pos (isIdentifierRest_of_start hc), hmap]
  simp only [hc, if_true]

end Text

/-- Reads whose names are identifiers. -/
def Named (rs : List Read) : Prop := ∀ r ∈ rs, Text.IsIdentifier r.root

namespace Named
variable {a b : List Read}

@[simp] theorem nil : Named [] := fun _ hr => nomatch hr

theorem append_iff : Named (a ++ b) ↔ Named a ∧ Named b := by
  simp only [Named, List.mem_append, or_imp, forall_and]

theorem append (ha : Named a) (hb : Named b) : Named (a ++ b) := append_iff.2 ⟨ha, hb⟩

theorem filter (h : Named a) (keep : Read → Bool) : Named (a.filter keep) :=
  fun r hr => h r (List.mem_filter.1 hr).1

end Named

theorem Term.named_listReads {ts : List Term} :
    Named (Term.listReads ts) ↔ ∀ t ∈ ts, Named t.reads := by
  induction ts with
  | nil => simp [Term.listReads]
  | cons t ts ih => simp [Term.listReads, Named.append_iff, ih]

theorem Part.named_listReads {ps : List Part} :
    Named (Part.listReads ps) ↔ ∀ p ∈ ps, Named p.reads := by
  induction ps with
  | nil => simp [Part.listReads]
  | cons p ps ih => simp [Part.listReads, Named.append_iff, ih]

/-- The reads of the key and of the value of an object entry. -/
def Term.entryNamed (entry : Key × Term) : Prop :=
  Named entry.1.reads ∧ Named entry.2.reads

theorem Term.named_entryReads {es : List (Key × Term)} :
    Named (Term.entryReads es) ↔ ∀ e ∈ es, Term.entryNamed e := by
  induction es with
  | nil => simp [Term.entryReads]
  | cons e es ih =>
    rw [Term.entryReads, Named.append_iff, Named.append_iff, ih, List.forall_mem_cons]
    rfl

theorem Term.putEntry_named {es : List (Key × Term)} {key : Key} {value : Term}
    (hs : ∀ e ∈ es, Term.entryNamed e) (h : Term.entryNamed (key, value)) :
    ∀ e ∈ Term.putEntry es key value, Term.entryNamed e := by
  intro e he
  unfold Term.putEntry at he
  split at he
  · obtain ⟨f, hf, rfl⟩ := List.mem_map.1 he
    split
    · exact ⟨(hs f hf).1, h.2⟩
    · exact hs f hf
  · rcases List.mem_append.1 he with he | he
    · exact hs e he
    · rw [List.mem_singleton.1 he]
      exact h

theorem Term.attach_named {left right : Term} (op : BinaryOp) (hl : Named left.reads)
    (hr : Named right.reads) : Named (Term.attach left op right).reads := by
  fun_induction Term.attach left op right with
  | case1 other l r hlt ih =>
    have hr := Named.append_iff.1 hr
    exact (ih hr.1).append hr.2
  | case2 other l r hge => exact hl.append hr
  | case3 right hn => exact hl.append hr

theorem Accessor.named_listReads {as : List Accessor} :
    Named (Accessor.listReads as) ↔ ∀ a ∈ as, Named a.reads := by
  induction as with
  | nil => simp [Accessor.listReads]
  | cons a as ih => simp [Accessor.listReads, Named.append_iff, ih]

theorem Term.access_named {base : Term} {as : List Accessor} (hb : Named base.reads)
    (hs : ∀ a ∈ as, Named a.reads) : Named (Term.access base as).reads := by
  have hs := Accessor.named_listReads.2 hs
  unfold Term.reads
  split
  · exact .append (by simpa [Named, Term.reads] using hb) hs
  · exact hb.append hs

namespace Grammar
open Text Text.Parser
variable {inner : Level} {mode : Mode}

theorem gives_satisfy (test : Char → Bool) :
    Gives (fun c => test c = true) (satisfy test : Rule Char) := by
  intro s c rest hs
  unfold satisfy at hs
  split at hs
  · cases hs
  · split at hs
    · cases hs
      assumption
    · cases hs

theorem gives_span (test : Char → Bool) :
    Gives (fun run => ∀ c ∈ run, test c = true) (span test : Rule (List Char)) := by
  intro s run rest hs
  cases hs
  exact fun c hc => List.all_eq_true.1 List.all_takeWhile c hc

theorem gives_identifier : Gives IsIdentifier identifier :=
  (gives_satisfy _).bind fun _ hc => (gives_span _).bind fun _ hs =>
    .pure (isIdentifier_ofList hc hs)

/-- What the rules of a depth keep. -/
structure Level.Named (l : Level) : Prop where
  term (mode : Mode) : Gives (fun t => PipelineResolution.Named t.reads) (l.term mode)
  chain (mode : Mode) : Gives (fun t => PipelineResolution.Named t.reads) (l.chain mode)
  pieces (quoted rereads : Bool) :
    Gives (fun ps => ∀ p ∈ ps, PipelineResolution.Named p.part.reads) (l.pieces quoted rereads)

theorem gives_padded {P : α → Prop} {p : Rule α} (lines : Bool) (h : Gives P p) :
    Gives P (padded lines p) := .after fun _ => h

theorem gives_literalText (quoted : Bool) :
    Gives (fun p => Named p.reads) (literalText quoted) :=
  .after fun found => by
    split
    · exact .fail
    · exact .pure (by simp [Part.reads])

theorem gives_marker {P : α → Prop} {p : Rule α} (opening : String) (h : Gives P p) :
    Gives (fun found => P found.2) (marker opening p) :=
  .after fun _ => .after fun _ => (gives_padded true h).bind fun _ ha => .after fun _ =>
    .after fun _ => .after fun _ => .pure ha

theorem gives_interpolation (hi : inner.Named) (rereads : Bool) :
    Gives (fun p => Named p.reads) (interpolation inner rereads) :=
  (gives_marker _ (hi.term _)).bind fun _ ht => .pure (by simpa only [Part.reads] using ht)

theorem gives_body (hi : inner.Named) (rereads : Bool) :
    Gives (fun ps => Named (Part.listReads ps)) (body inner rereads) :=
  (hi.pieces _ _).bind fun _ hs => .pure (Part.named_listReads.2 (List.forall_mem_map.2 hs))

theorem gives_branch (hi : inner.Named) (rereads : Bool) :
    Gives (fun p => Named p.reads) (branch inner rereads) := by
  have test : Gives (fun t => Named t.reads)
      (do text "if"; padded true (inner.term ⟨false, rereads⟩)) :=
    .after fun _ => gives_padded true (hi.term _)
  refine (gives_marker _ test).bind fun _ ht => (gives_body hi rereads).bind fun _ hy => ?_
  refine (Gives.optional (P := fun no : Strip × List Part => Named (Part.listReads no.2)) ?_).bind
    fun found hf => .after fun _ => ?_
  · exact .after fun _ => (gives_body hi rereads).bind fun _ hs => .pure hs
  cases found with
  | none =>
    refine .pure ?_
    rw [Part.reads]
    exact (ht.append hy).append .nil
  | some no =>
    refine .pure ?_
    rw [Part.reads]
    exact (ht.append hy).append (hf no rfl)

theorem gives_loopHead (hi : inner.Named) (rereads : Bool) :
    Gives (fun head => Named head.2.reads) (loopHead inner rereads) :=
  .after fun _ => .after fun _ => .after fun _ => (gives_padded true (hi.term _)).bind
    fun _ ht => .pure ht

theorem gives_loop (hi : inner.Named) (rereads : Bool) :
    Gives (fun p => Named p.reads) (loop inner rereads) :=
  (gives_marker _ (gives_loopHead hi rereads)).bind fun _ hs =>
    (gives_body hi rereads).bind fun _ hb => .after fun _ => .pure <| by
      rw [Part.reads]
      exact hs.append (hb.filter _)

theorem gives_pieces (hi : inner.Named) (quoted rereads : Bool) :
    Gives (fun ps => ∀ p ∈ ps, Named p.part.reads) (pieces inner quoted rereads) := by
  have part : Gives (fun p => Named p.reads) (literalText quoted <|>
      interpolation inner rereads <|> branch inner rereads <|> loop inner rereads) :=
    (gives_literalText quoted).orElse ((gives_interpolation hi rereads).orElse
      ((gives_branch hi rereads).orElse (gives_loop hi rereads)))
  exact part.spelling.many.bind fun found hf => .pure fun p hp => by
    obtain ⟨⟨part, spelled⟩, hm, rfl⟩ := List.mem_map.1 hp
    exact hf _ hm

theorem gives_quoted (hi : inner.Named) (rereads : Bool) :
    Gives (fun t => Named t.reads) (quoted inner rereads) :=
  .after fun found => by
    split
    · exact .pure (by simp [Term.reads])
    · exact .pure (by simp [Term.reads])
    · split
      · dsimp only
        split
        · rename_i again hw
          refine .pure ?_
          rw [Term.reads, Part.named_listReads]
          intro p hp
          obtain ⟨piece, hm, rfl⟩ := List.mem_map.1 hp
          exact (hi.pieces false true).whole? hw piece hm
        · exact .pure (by simp [Term.reads])
      · exact .pure (by simp [Term.reads, Part.listReads])

theorem gives_separated {P : α → Prop} {item : Rule α} (h : Gives P item) :
    Gives (fun found => ∀ a ∈ found, P a) (separated item) :=
  ((gives_padded true h).sepBy1 _).optional.bind fun found hf => by
    cases found with
    | none => exact .pure (by simp)
    | some items => exact .after fun _ => .pure (hf items rfl)

theorem gives_bracketLoop (hi : inner.Named) (rereads : Bool) :
    Gives (fun head => Named head.2.reads) (bracketLoop inner rereads) :=
  (gives_padded true (gives_loopHead hi rereads)).bind fun _ hh => .after fun _ => .after fun _ =>
    .pure hh

theorem gives_loopTests (hi : inner.Named) (rereads : Bool) :
    Gives (fun tests => Named (Term.listReads tests)) (loopTests inner rereads) := by
  have test : Gives (fun t => Named t.reads)
      (padded true (do text "if"; padded true (inner.term ⟨false, rereads⟩))) :=
    gives_padded true (.after fun _ => gives_padded true (hi.term _))
  refine test.optional.bind fun found hf => .pure ?_
  rw [Term.named_listReads]
  intro t ht
  exact hf t (Option.mem_toList.1 ht)

theorem gives_list (hi : inner.Named) (mode : Mode) :
    Gives (fun o => Named o.1.reads) (list inner mode) :=
  .after fun _ => .after fun loops => by
    split
    · refine (gives_bracketLoop hi _).bind fun ⟨names, source⟩ hs => ?_
      refine (gives_padded true (hi.term _)).bind fun body hb => ?_
      refine (gives_loopTests hi _).bind fun tests ht => .after fun _ => .pure ?_
      rw [Term.reads]
      exact hs.append ((hb.append ht).filter _)
    · refine (gives_separated (hi.term _)).bind fun items hs => .after fun _ => .pure ?_
      rw [Term.reads, Term.named_listReads]
      exact hs

theorem gives_objectEntry (hi : inner.Named) (mode : Mode) :
    Gives Term.entryNamed (objectEntry inner mode) :=
  (hi.term mode).bind fun key hk => .after fun _ =>
    (gives_padded _ (hi.term mode)).bind fun value hv => by
      split
      · exact .pure ⟨by simp [Key.reads], hv⟩
      · exact .pure ⟨by simpa only [Key.reads] using hk, hv⟩

theorem putEntries_named {entries es : List (Key × Term)} (hs : ∀ e ∈ es, Term.entryNamed e)
    (h : ∀ e ∈ entries, Term.entryNamed e) : ∀ e ∈ entries.foldl
      (fun es (key, value) => Term.putEntry es key value) es, Term.entryNamed e := by
  induction entries generalizing es with
  | nil => exact hs
  | cons entry entries ih =>
    obtain ⟨he, h⟩ := List.forall_mem_cons.1 h
    exact ih (Term.putEntry_named hs he) h

theorem gives_object (hi : inner.Named) (mode : Mode) :
    Gives (fun o => Named o.1.reads) (object inner mode) :=
  .after fun _ => .after fun loops => by
    split
    · refine (gives_bracketLoop hi _).bind fun ⟨names, source⟩ hs => ?_
      refine (gives_padded true (hi.term _)).bind fun key hk => .after fun _ => ?_
      refine (gives_padded true (hi.term _)).bind fun body hb => .after fun _ => ?_
      refine (gives_loopTests hi _).bind fun tests ht => .after fun _ => .pure ?_
      rw [Term.reads]
      exact hs.append (((hk.append hb).append ht).filter _)
    · have entry {ending : Rule Unit} : Gives Term.entryNamed (do
          let entry ← padded true (objectEntry inner mode)
          ending
          return entry) :=
        (gives_padded true (gives_objectEntry hi mode)).bind fun _ he => .after fun _ => .pure he
      refine entry.many.bind fun entries hs => .after fun _ => .pure ?_
      rw [Term.reads, Term.named_entryReads]
      exact putEntries_named (by simp) hs

theorem gives_parenthesised (hi : inner.Named) (mode : Mode) :
    Gives (fun o => Named o.1.reads) (parenthesised inner mode) :=
  .after fun _ => (gives_padded true (hi.term _)).bind fun term ht => .after fun _ => .pure <| by
    simpa only [Term.reads] using ht

theorem gives_arguments (hi : inner.Named) (mode : Mode) :
    Gives (fun found => ∀ t ∈ found.1, Named t.reads) (arguments inner mode) :=
  .after fun _ => ((gives_padded true (hi.term _)).sepBy1 _).optional.bind fun found hf => by
    cases found with
    | none => exact .after fun _ => .pure (by simp)
    | some items => exact .after fun _ => .after fun _ => .after fun _ => .pure (hf items rfl)

theorem gives_named (hi : inner.Named) (mode : Mode) :
    Gives (fun o => Named o.1.reads) (named inner mode) :=
  gives_identifier.bind fun name hn => .after fun spaces =>
    (gives_padded _ (gives_arguments hi mode)).optional.bind fun found hf => by
      cases found with
      | some call =>
        refine .pure ?_
        rw [Term.reads, Term.named_listReads]
        exact hf call rfl
      | none =>
        dsimp only
        split
        · exact .fail
        · split
          · exact .pure (by simp [Term.reads])
          · exact .pure (by simp [Term.reads])
          · exact .pure (by simp [Term.reads])
          · exact .pure (by simpa [Term.reads, Named] using hn)

theorem gives_operand (hi : inner.Named) (mode : Mode) :
    Gives (fun o => Named o.1.reads) (operand inner mode) := by
  have plain {p : Rule Term} (h : Gives (fun t => Named t.reads) p) :
      Gives (fun o => Named o.1.reads) (do return (← p, mode.lines) : Rule Operand) :=
    h.bind fun t ht => .pure ht
  have positive : Gives (fun t => Named t.reads) (do return .number (← numeral) : Rule Term) :=
    .after fun n => .pure (by simp [Term.reads])
  have negative : Gives (fun t => Named t.reads) negativeNumeral :=
    .after fun _ => .after fun n => .pure (by simp [Term.reads])
  exact (plain (gives_quoted hi _)).orElse ((gives_list hi mode).orElse
    ((gives_object hi mode).orElse ((gives_parenthesised hi mode).orElse
      ((plain positive).orElse ((plain negative).orElse (gives_named hi mode))))))

theorem gives_signedOperand (hi : inner.Named) (mode : Mode) :
    Gives (fun o => Named o.1.reads) (signedOperand inner mode) :=
  .after fun ops => (gives_operand hi mode).bind fun ⟨term, lines⟩ ht => by
    dsimp only
    split
    · exact .pure (by simpa only [Term.reads] using ht)
    · exact .pure ht

theorem gives_accessor (hi : inner.Named) (mode : Mode) :
    Gives (fun a => Named a.reads) (accessor inner mode) := by
  have position : Gives (fun a => Named a.reads) Grammar.position := .after fun digits => by
    split
    · split
      · exact .pure (by simp [Accessor.reads])
      · exact .fail
    · exact .fail
  refine .orElse (.after fun _ => .after fun _ => .after fun _ => ?_) (.after fun _ => ?_)
  · exact .orElse (.after fun _ => .after fun _ => .pure (by simp [Accessor.reads]))
      (position.orElse (.after fun _ => .pure (by simp [Accessor.reads])))
  · have each : Gives (fun a => Named a.reads) (do
        padded true (char '*')
        return .each : Rule Accessor) :=
      .after fun _ => .pure (by simp [Accessor.reads])
    have index := (gives_padded true (hi.term { mode with lines := true })).bind
      fun key hk => .pure (P := fun a : Accessor => Named a.reads) (a := .index key)
        (by simpa only [Accessor.reads] using hk)
    exact (each.orElse index).bind fun a ha => .after fun _ => .pure ha

theorem gives_accessed (hi : inner.Named) (mode : Mode) :
    Gives (fun o => Named o.1.reads) (accessed inner mode) :=
  (gives_signedOperand hi mode).bind fun ⟨base, lines⟩ hb =>
    (gives_padded lines (gives_accessor hi _)).many.bind fun accessors hs => by
      split
      · exact .pure hb
      · exact .pure (Term.access_named hb hs)

theorem gives_chain (hi : inner.Named) (mode : Mode) :
    Gives (fun o => Named o.1.reads) (chain inner mode) :=
  (gives_accessed hi mode).bind fun ⟨left, lines⟩ hl => .after fun found => by
    cases found with
    | none => exact .pure hl
    | some op =>
      exact (gives_padded lines (hi.chain _)).bind fun right hr =>
        .pure (Term.attach_named op hl hr)

theorem gives_term (hi : inner.Named) (mode : Mode) :
    Gives (fun t => Named t.reads) (term inner mode) :=
  (gives_chain hi mode).bind fun ⟨test, lines⟩ ht => .after fun found => by
    cases found with
    | none => exact .pure ht
    | some mark =>
      refine Gives.bind (P := fun t => Named t.reads) (gives_padded lines ?_)
        fun yes hy => .after fun _ => ?_
      · split
        · exact hi.chain _
        · exact hi.term _
      · refine (gives_padded lines (hi.term _)).bind fun no hn => .pure ?_
        rw [Term.reads]
        exact (ht.append hy).append hn

theorem level_named (depth : Nat) : (level depth).Named := by
  induction depth with
  | zero => exact ⟨fun _ => .fail, fun _ => .fail, fun _ _ => .fail⟩
  | succ depth ih =>
    exact ⟨gives_term ih, fun mode => (gives_chain ih mode).bind fun _ hc => .pure hc,
      gives_pieces ih⟩

theorem term?_named {s : String} {t : Term} (h : term? s = some t) : Named t.reads :=
  ((level_named _).term _).whole? h

theorem template?_named {s : String} {parts : List Part} (h : template? s = some parts) :
    ∀ p ∈ parts, Named p.reads := by
  obtain ⟨pieces, hw, rfl⟩ := Option.map_eq_some_iff.1 h
  intro p hp
  obtain ⟨piece, hm, rfl⟩ := List.mem_map.1 hp
  exact ((level_named _).pieces _ _).whole? hw piece hm

end Grammar

namespace Expression

theorem ofTerm_named {t : Term} (h : Named t.reads) : Named (ofTerm t).reads := by
  unfold ofTerm
  split
  · simp [reads]
  · simpa only [reads] using h

theorem ofParts_named {parts : List Part} {e : Expression}
    (h : ∀ p ∈ parts, Named p.reads) (he : ofParts parts = .ok e) : Named e.reads := by
  unfold ofParts at he
  split at he
  · cases he
  · split at he
    · cases he
      exact ofTerm_named (by simpa [Part.reads] using h)
    · split at he <;> cases he
      · simp [reads]
      · rw [reads, Part.named_listReads]
        exact h

theorem parseTerm_named {s : String} {e : Expression} (h : parseTerm s = .ok e) :
    Named e.reads := by
  unfold parseTerm at h
  split at h <;> cases h
  rename_i t ht
  exact ofTerm_named (Grammar.term?_named ht)

theorem parseTemplate_named {s : String} {e : Expression} (h : parseTemplate s = .ok e) :
    Named e.reads := by
  unfold parseTemplate at h
  split at h
  · rename_i parts hp
    exact ofParts_named (Grammar.template?_named hp) h
  · cases h

theorem ofItems_named {es : List Expression} (h : Named (listReads es)) :
    Named (ofItems es).reads := by
  unfold ofItems
  split
  · simp [reads]
  · simpa only [reads] using h

theorem ofEntries_named {es : List (String × Expression)} (h : Named (entryReads es)) :
    Named (ofEntries es).reads := by
  unfold ofEntries
  split
  · simp [reads]
  · simpa only [reads] using h

mutual
theorem ofYaml_named : (y : Yaml) → {location : Location} → {e : Expression} →
    ofYaml location y = .ok e → Named e.reads
  | .null, _, _, h | .bool _, _, _, h | .int _, _, _, h | .float _, _, _, h => by
    cases h
    simp [reads]
  | .string s, _, _, h => by
    rw [ofYaml] at h
    split at h
    · split at h <;> cases h
      exact parseTemplate_named ‹_›
    · cases h
      simp [reads]
  | .sequence items, _, _, h => by
    rw [ofYaml] at h
    obtain ⟨es, hs, he⟩ := bind_eq_ok.1 h
    cases he
    exact ofItems_named (listOfYaml_named items hs)
  | .mapping entries, _, _, h => by
    rw [ofYaml] at h
    obtain ⟨es, hs, he⟩ := bind_eq_ok.1 h
    cases he
    exact ofEntries_named (entriesOfYaml_named entries hs)
  | .tagged _ y, _, _, h => by
    rw [ofYaml] at h
    exact ofYaml_named y h

theorem listOfYaml_named : (ys : List Yaml) → {location : Location} → {position : Nat} →
    {es : List Expression} → listOfYaml location position ys = .ok es → Named (listReads es)
  | [], _, _, _, h => by
    cases h
    simp [listReads]
  | y :: ys, _, _, _, h => by
    rw [listOfYaml] at h
    obtain ⟨e, hy, h⟩ := bind_eq_ok.1 h
    obtain ⟨es, hs, he⟩ := bind_eq_ok.1 h
    cases he
    rw [listReads]
    exact (ofYaml_named y hy).append (listOfYaml_named ys hs)

theorem entriesOfYaml_named : (entries : List (Yaml × Yaml)) → {location : Location} →
    {es : List (String × Expression)} → entriesOfYaml location entries = .ok es →
      Named (entryReads es)
  | [], _, _, h => by
    cases h
    simp [entryReads]
  | (k, v) :: entries, _, _, h => by
    rw [entriesOfYaml] at h
    split at h
    · cases h
    · obtain ⟨e, hv, h⟩ := bind_eq_ok.1 h
      obtain ⟨es, hs, he⟩ := bind_eq_ok.1 h
      cases he
      rw [entryReads]
      exact (ofYaml_named v hv).append (entriesOfYaml_named entries hs)
end

/-- The expressions that a text or a document can hold. -/
inductive Written : Expression → Prop
  | term {s : String} {e : Expression} (h : parseTerm s = .ok e) : Written e
  | template {s : String} {e : Expression} (h : parseTemplate s = .ok e) : Written e
  | yaml {y : Yaml} {location : Location} {e : Expression} (h : ofYaml location y = .ok e) :
    Written e

theorem Written.named {e : Expression} (h : e.Written) : Named e.reads := by
  cases h with
  | term h => exact parseTerm_named h
  | template h => exact parseTemplate_named h
  | yaml h => exact ofYaml_named _ h

theorem Written.isIdentifier_root {e : Expression} (h : e.Written) {r : Reference}
    (hr : r ∈ e.references) : Text.IsIdentifier r.root := by
  obtain ⟨x, hx, root⟩ := e.rooted r hr
  exact root ▸ h.named x hx

end Expression
end PipelineResolution
