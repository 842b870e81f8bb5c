import Mathlib.Data.List.Basic
import Mathlib.Data.List.Flatten
import PipelineResolution.Document.Decode

/-!
# What becomes of the entries of a body

Each entry of a body stands for the blocks behind its labels, for a sequence of blocks, or for an
attribute. A block has just what its entries stand for, in their order, each located by the keys that
lead to it. Only a path of labels that ends in a mapping without entries is passed over: where it
ends in any other value, the missing label is reported.
-/
namespace PipelineResolution

/-- The location behind some keys. -/
def Location.below (l : Location) (keys : List String) : Location := keys.foldl child l

/-- Where a way from label to label ends. -/
inductive LabelEnd where
  /-- Behind the last label, at the body of a block. -/
  | body (y : Yaml)
  /-- At a value that is no mapping, while labels are missing. -/
  | early (missing : Nat)
  /-- At a mapping without entries, while labels are missing. -/
  | barren (missing : Nat)
  /-- At a key that is no scalar. -/
  | unlabeled

/-- A way from label to label. -/
structure LabelPath where
  labels : List String
  ending : LabelEnd

namespace LabelPath

def under (label : String) (p : LabelPath) : LabelPath := { p with labels := label :: p.labels }

/-- Whether the path ends in a mapping without entries. -/
def isBarren (p : LabelPath) : Bool := p.ending matches .barren _

/-- The block of a type that a path leads to. -/
def block? (type : String) (location : Location) (p : LabelPath) : Option Block :=
  match p.ending with
  | .body y => some { Block.ofYaml type (location.below p.labels) y with labels := p.labels }
  | .early _ | .barren _ | .unlabeled => none

/-- The report on a path that leads to no block. -/
def report? (type : String) (location : Location) (p : LabelPath) : Option Diagnostic :=
  match p.ending with
  | .body _ => none
  | .early n | .barren n =>
    some ((Diagnostic.error "Missing block label"
      ("A " ++ type ++ " block needs " ++ toString n ++ " more label(s).")).about
        (location.below p.labels))
  | .unlabeled =>
    some ((Diagnostic.error "Invalid block label" "Block labels must be strings.").about
      (location.below p.labels))

/-- Each path leads to a block or has a report. -/
theorem isSome_report? (type : String) (location : Location) (p : LabelPath) :
    (p.report? type location).isSome = (p.block? type location).isNone := by
  obtain ⟨labels, ending⟩ := p
  cases ending <;> rfl

end LabelPath

/-- The ways through a value that is a number of labels away from the bodies of blocks. -/
def Yaml.labelPaths : Nat → Yaml → List LabelPath
  | 0, y => [⟨[], .body y⟩]
  | n + 1, .mapping [] => [⟨[], .barren (n + 1)⟩]
  | n + 1, .mapping entries => entries.flatMap fun (k, v) =>
    match k.keyText? with
    | some label => (v.labelPaths n).map (.under label)
    | none => [⟨[], .unlabeled⟩]
  | n + 1, _ => [⟨[], .early (n + 1)⟩]

/-- What an entry of a body is. -/
inductive Entry where
  /-- A key that is no scalar. -/
  | unkeyed
  /-- Blocks behind their labels. -/
  | labeled (key : String) (paths : List LabelPath)
  /-- Blocks one after another. -/
  | repeated (key : String) (bodies : List Yaml)
  | setting (key : String) (y : Yaml)

namespace Entry

/-- An entry in the body of a block of a type. -/
def of (type : String) (e : Yaml × Yaml) : Entry :=
  match e.1.keyText? with
  | none => .unkeyed
  | some key =>
    match Shape.of? type key, e.2 with
    | some (.labeled n), .mapping entries => .labeled key ((Yaml.mapping entries).labelPaths n)
    | some .repeated, .sequence bodies => .repeated key bodies
    | some .repeated, .mapping entries => .repeated key [.mapping entries]
    | _, y => .setting key y

def paths : Entry → List LabelPath
  | .labeled _ paths => paths
  | .unkeyed | .repeated .. | .setting .. => []

/-- The entry without the paths that end in a mapping without entries. -/
def fruitful : Entry → Entry
  | .labeled key paths => .labeled key (paths.filter (!·.isBarren))
  | e => e

/-- The attribute of an entry in a body at a location. -/
def attributes (location : Location) : Entry → List Attribute
  | .setting key y =>
    (Expression.ofYaml (location.child key) y).toOption.toList.map (⟨key, ·, location.child key⟩)
  | .unkeyed | .labeled .. | .repeated .. => []

/-- The blocks of an entry in a body at a location. -/
def blocks (location : Location) : Entry → List Block
  | .labeled key paths => paths.filterMap (LabelPath.block? key (location.child key))
  | .repeated key bodies => bodies.mapIdx fun i y =>
    Block.ofYaml key ((location.child key).child (toString i)) y
  | .unkeyed | .setting .. => []

/-- The reports on an entry in a body at a location. -/
def reports (location : Location) : Entry → Diagnostics
  | .unkeyed => [(Diagnostic.error "Invalid key" "Block keys must be strings.").about location]
  | .labeled key paths => paths.filterMap (LabelPath.report? key (location.child key))
  | .setting key y =>
    match Expression.ofYaml (location.child key) y with
    | .ok _ => []
    | .error d => [d]
  | .repeated .. => []

end Entry

namespace BodyItem

def attribute? : BodyItem → Option Attribute
  | .attribute a => some a
  | _ => none

def block? : BodyItem → Option Block
  | .block b => some b
  | _ => none

def problem? : BodyItem → Option Diagnostic
  | .problem d => some d
  | _ => none

end BodyItem

namespace LabelPath
variable {type : String} {labels : List String} {location : Location}

/-- What a path contributes behind some labels. -/
def item? (type : String) (labels : List String) (location : Location) (p : LabelPath) :
    Option BodyItem :=
  match p.ending with
  | .body y =>
    some (.block { Block.ofYaml type (location.below p.labels) y with labels := labels ++ p.labels })
  | .early n => some (Block.missingLabel type n (location.below p.labels))
  | .barren _ => none
  | .unlabeled => some (Block.problemAt "Invalid block label" "Block labels must be strings."
      (location.below p.labels))

theorem item?_under (label : String) (p : LabelPath) :
    (p.under label).item? type labels location =
      p.item? type (labels ++ [label]) (location.child label) := by
  obtain ⟨rest, ending⟩ := p
  cases ending <;> simp [item?, under, Location.below]

/-- A barren path has a report, so one is missing where there is such a path. -/
theorem reports_filter_eq_iff {paths : List LabelPath} :
    (paths.filter (!·.isBarren)).filterMap (report? type location) =
      paths.filterMap (report? type location) ↔ ∀ p ∈ paths, p.isBarren = false := by
  induction paths with
  | nil => exact ⟨fun _ => nofun, fun _ => rfl⟩
  | cons p paths ih =>
    rw [List.forall_mem_cons, ← ih]
    cases barren : p.isBarren with
    | false =>
      rw [List.filter_cons_of_pos (by simp [barren]), List.filterMap_cons, List.filterMap_cons]
      cases p.report? type location <;> simp
    | true =>
      have blind : (p.block? type location).isNone = true := by
        obtain ⟨labels, ending⟩ := p
        cases ending <;> cases barren
        rfl
      obtain ⟨d, report⟩ :=
        Option.isSome_iff_exists.1 ((p.isSome_report? type location).trans blind)
      have fewer : ((paths.filter (!·.isBarren)).filterMap (report? type location)).length ≤
          (paths.filterMap (report? type location)).length :=
        (List.filter_sublist.filterMap _).length_le
      rw [List.filter_cons_of_neg (by simp [barren]), List.filterMap_cons_some report]
      refine ⟨fun same => ?_, fun h => nomatch h.1⟩
      have lengths := congrArg List.length same
      rw [List.length_cons] at lengths
      omega

end LabelPath

namespace Block
variable {type : String}

theorem itemsOfLabels_eq (type : String) (more : Nat) (labels : List String) (location : Location)
    (entries : List (Yaml × Yaml)) : itemsOfLabels type more labels location entries =
      entries.flatMap fun e =>
        match e.1.keyText? with
        | none => [problemAt "Invalid block label" "Block labels must be strings." location]
        | some label => itemsOfLabeled type more (labels ++ [label]) (location.child label) e.2 := by
  induction entries with
  | nil => rw [itemsOfLabels, List.flatMap_nil]
  | cons e entries ih =>
    rw [itemsOfLabels]
    exact congrArg (_ ++ ·) ih

theorem itemsOfLabeled_eq (n : Nat) (labels : List String) (location : Location) (y : Yaml) :
    itemsOfLabeled type n labels location y =
      (y.labelPaths n).filterMap (LabelPath.item? type labels location) := by
  induction n generalizing labels location y with
  | zero =>
    have own : itemsOfLabeled type 0 labels location y =
        [.block { ofYaml type location y with labels := labels }] := by
      cases y with
      | tagged tag y => cases y <;> rfl
      | _ => rfl
    rw [own]
    simp [Yaml.labelPaths, LabelPath.item?, Location.below]
  | succ n ih =>
    cases y with
    | mapping entries =>
      change itemsOfLabels type n labels location entries = _
      cases entries with
      | nil => rfl
      | cons e entries =>
        rw [itemsOfLabels_eq, Yaml.labelPaths, List.filterMap_flatMap]
        · congr 1
          funext ⟨k, v⟩
          dsimp only
          cases k.keyText? with
          | none => rfl
          | some label =>
            dsimp only
            rw [ih, List.filterMap_map]
            congr 1
            funext p
            exact (p.item?_under label).symm
        · exact nofun
    | tagged tag y => cases y <;> rfl
    | _ => rfl

theorem itemsOfSequence_eq (type : String) (location : Location) (position : Nat) (ys : List Yaml) :
    itemsOfSequence type location position ys = ys.mapIdx fun i y =>
      .block (ofYaml type (location.child (toString (position + i))) y) := by
  induction ys generalizing position with
  | nil => rw [itemsOfSequence, List.mapIdx_nil]
  | cons y ys ih =>
    rw [itemsOfSequence, ih, List.mapIdx_cons]
    simp only [Nat.add_zero, Nat.add_assoc, Nat.add_comm 1]

end Block

/-- What an entry contributes to a body at a location. -/
def Entry.items (location : Location) : Entry → List BodyItem
  | .unkeyed => [Block.problemAt "Invalid key" "Block keys must be strings." location]
  | .labeled key paths => paths.filterMap (LabelPath.item? key [] (location.child key))
  | .repeated key bodies => bodies.mapIdx fun i y =>
    .block (Block.ofYaml key ((location.child key).child (toString i)) y)
  | .setting key y => [Block.attributeItem key (location.child key) y]

namespace Block

theorem items_of (type : String) (location : Location) (k v : Yaml) :
    (match k.keyText? with
      | none => [problemAt "Invalid key" "Block keys must be strings." location]
      | some key => itemsOfEntry type key (location.child key) v) =
      (Entry.of type (k, v)).items location := by
  unfold Entry.of
  cases k.keyText? with
  | none => rfl
  | some key =>
    dsimp only
    unfold itemsOfEntry
    cases v with
    | mapping entries =>
      dsimp only
      cases Shape.of? type key with
      | none => rfl
      | some shape =>
        cases shape with
        | repeated => rfl
        | labeled n =>
          cases n with
          | zero => rfl
          | succ n => exact itemsOfLabeled_eq (n + 1) [] (location.child key) (.mapping entries)
    | sequence items =>
      dsimp only
      cases Shape.of? type key with
      | none => rfl
      | some shape =>
        cases shape with
        | labeled => rfl
        | repeated =>
          refine (itemsOfSequence_eq key (location.child key) 0 items).trans ?_
          simp only [Nat.zero_add]
          rfl
    | _ =>
      dsimp only
      cases Shape.of? type key with
      | none => rfl
      | some shape => cases shape <;> rfl

theorem itemsOfBody_eq (type : String) (location : Location) (entries : List (Yaml × Yaml)) :
    itemsOfBody type location entries =
      entries.flatMap fun e => (Entry.of type e).items location := by
  induction entries with
  | nil => rw [itemsOfBody, List.flatMap_nil]
  | cons e entries ih =>
    obtain ⟨k, v⟩ := e
    rw [itemsOfBody, ih, List.flatMap_cons]
    exact congrArg (· ++ _) (items_of type location k v)

end Block

namespace Entry
variable {location : Location}

theorem attributes_items (e : Entry) :
    (e.items location).filterMap BodyItem.attribute? = e.attributes location := by
  cases e with
  | unkeyed => rfl
  | labeled key paths =>
    refine List.filterMap_eq_nil_iff.2 fun i hi => ?_
    obtain ⟨⟨labels, ending⟩, -, hp⟩ := List.mem_filterMap.1 hi
    cases ending <;> cases hp <;> rfl
  | repeated key bodies =>
    refine List.filterMap_eq_nil_iff.2 fun i hi => ?_
    obtain ⟨n, hn, rfl⟩ := List.mem_mapIdx.1 hi
    rfl
  | setting key y =>
    dsimp only [items, attributes, Block.attributeItem]
    cases Expression.ofYaml (location.child key) y <;> rfl

theorem blocks_items (e : Entry) :
    (e.items location).filterMap BodyItem.block? = e.blocks location := by
  cases e with
  | unkeyed => rfl
  | labeled key paths =>
    refine List.filterMap_filterMap.trans (List.filterMap_congr fun p _ => ?_)
    obtain ⟨labels, ending⟩ := p
    cases ending <;> rfl
  | repeated key bodies =>
    dsimp only [items, blocks]
    rw [List.mapIdx_eq_zipIdx_map, List.mapIdx_eq_zipIdx_map, List.filterMap_map]
    exact congrFun List.filterMap_eq_map _
  | setting key y =>
    dsimp only [items, blocks, Block.attributeItem]
    cases Expression.ofYaml (location.child key) y <;> rfl

theorem problems_items (e : Entry) :
    (e.items location).filterMap BodyItem.problem? = e.fruitful.reports location := by
  cases e with
  | unkeyed => rfl
  | labeled key paths =>
    dsimp only [items, fruitful, reports]
    rw [List.filterMap_filterMap, List.filterMap_filter]
    refine List.filterMap_congr fun p _ => ?_
    obtain ⟨labels, ending⟩ := p
    cases ending <;> rfl
  | repeated key bodies =>
    refine List.filterMap_eq_nil_iff.2 fun i hi => ?_
    obtain ⟨n, hn, rfl⟩ := List.mem_mapIdx.1 hi
    rfl
  | setting key y =>
    dsimp only [items, fruitful, reports, Block.attributeItem]
    cases Expression.ofYaml (location.child key) y <;> rfl

/-- Only the reports on barren paths are left out. -/
theorem sublist_reports (e : Entry) :
    (e.fruitful.reports location).Sublist (e.reports location) := by
  cases e with
  | labeled key paths => exact List.filter_sublist.filterMap _
  | unkeyed | repeated | setting => exact .refl _

theorem reports_fruitful_eq_iff (e : Entry) :
    e.fruitful.reports location = e.reports location ↔ ∀ p ∈ e.paths, p.isBarren = false := by
  cases e with
  | labeled key paths => exact LabelPath.reports_filter_eq_iff
  | unkeyed | repeated | setting => exact ⟨fun _ => nofun, fun _ => rfl⟩

end Entry

/-- Lists of parts of some lists are the whole only when each part is. -/
theorem flatMap_eq_flatMap_iff {α β : Type} {f g : α → List β} {as : List α}
    (h : ∀ a ∈ as, (f a).Sublist (g a)) : as.flatMap f = as.flatMap g ↔ ∀ a ∈ as, f a = g a := by
  induction as with
  | nil => exact ⟨fun _ => nofun, fun _ => rfl⟩
  | cons a as ih =>
    obtain ⟨head, rest⟩ := List.forall_mem_cons.1 h
    have tails : (as.flatMap f).Sublist (as.flatMap g) := .flatMap_right as rest
    rw [List.flatMap_cons, List.flatMap_cons, List.forall_mem_cons, ← ih rest]
    refine ⟨fun same => ?_, fun ⟨first, others⟩ => by rw [first, others]⟩
    have lengths := congrArg List.length same
    rw [List.length_append, List.length_append] at lengths
    have first := head.eq_of_length_le (by have := tails.length_le; omega)
    rw [first] at same
    exact ⟨first, List.append_cancel_left same⟩

/-- A block has exactly what its entries stand for, in their order: the attributes, the blocks at the
ends of label paths and in sequences, and the reports, each where the keys lead. Only the reports on
paths that end in a mapping without entries are left out. -/
theorem Block.entries_accounted (type : String) (labels : List String) (location : Location)
    (entries : List (Yaml × Yaml)) :
    let b := ofItems type labels location (itemsOfBody type location entries)
    let es := entries.map (Entry.of type)
    b.attributes = es.flatMap (·.attributes location) ∧
      b.blocks = es.flatMap (·.blocks location) ∧
      b.diagnostics = es.flatMap (·.fruitful.reports location) ∧
      (b.diagnostics = es.flatMap (·.reports location) ↔
        ∀ e ∈ es, ∀ p ∈ e.paths, p.isBarren = false) := by
  intro b es
  have items : itemsOfBody type location entries = es.flatMap (·.items location) := by
    rw [itemsOfBody_eq, List.flatMap_map]
  have attributes : b.attributes = es.flatMap (·.attributes location) := by
    change (itemsOfBody type location entries).filterMap BodyItem.attribute? = _
    rw [items, List.filterMap_flatMap]
    simp only [Entry.attributes_items]
  have blocks : b.blocks = es.flatMap (·.blocks location) := by
    change (itemsOfBody type location entries).filterMap BodyItem.block? = _
    rw [items, List.filterMap_flatMap]
    simp only [Entry.blocks_items]
  have reports : b.diagnostics = es.flatMap (·.fruitful.reports location) := by
    change (itemsOfBody type location entries).filterMap BodyItem.problem? = _
    rw [items, List.filterMap_flatMap]
    simp only [Entry.problems_items]
  refine ⟨attributes, blocks, reports, ?_⟩
  rw [reports, flatMap_eq_flatMap_iff fun e _ => e.sublist_reports]
  simp only [Entry.reports_fruitful_eq_iff]

/-- The label of a mapping without entries is lost in silence. -/
theorem Block.entries_accounted_barren : ¬∀ (type : String) (labels : List String)
    (location : Location) (entries : List (Yaml × Yaml)),
    (ofItems type labels location (itemsOfBody type location entries)).diagnostics =
      (entries.map (Entry.of type)).flatMap (·.reports location) := by
  intro claim
  have silent := claim "pipeline" ["a"] ⟨none, "pipeline.a"⟩
    [(.string "step", .mapping [(.string "http", .mapping [])])]
  have silent : [] = [(Diagnostic.error "Missing block label"
    "A step block needs 1 more label(s).").about ⟨none, "pipeline.a.step.http"⟩] := silent
  cases silent

end PipelineResolution
