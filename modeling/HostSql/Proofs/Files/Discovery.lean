import HostSql.Files.Discover
import HostSql.Proofs.Files.Writes
import Mathlib.Data.List.Sort

/-! What is discovered: the source files that walks down from the inputs come to, in the order of their
components and each one once. The order of the inputs and the order in which directories list their
entries do not matter. -/
namespace HostSql

namespace Path
variable {p q : Path} {ps : List Path} {c : List Component}

theorem Component.key_injective : Function.Injective Component.key := by
  intro a b same
  cases a <;> cases b <;> simp [key] at same ⊢
  exact List.map_injective_iff.2 (fun _ _ => Char.toNat_inj.1) same

theorem key_eq_iff : p.key = q.key ↔ p.components = q.components :=
  (List.map_injective_iff.2 Component.key_injective).eq_iff

/-- Strictly ascending, so that no two of them have the same components. -/
def Ascending (ps : List Path) : Prop := ps.Pairwise (·.key < ·.key)

/-- As far as components tell, the path is there afterwards and all others are as before. -/
theorem mem_insertNew_iff :
    c ∈ (insertNew p ps).map components ↔ c = p.components ∨ c ∈ ps.map components := by
  induction ps with
  | nil => simp [insertNew]
  | cons q ps ih =>
    rw [insertNew]
    split
    · simp
    · split
      · next same => simp [key_eq_iff.1 same]
      · rw [List.map_cons, List.mem_cons, ih, List.map_cons, List.mem_cons, or_left_comm]

theorem Ascending.insertNew (h : Ascending ps) (p : Path) : Ascending (insertNew p ps) := by
  induction ps with
  | nil => exact List.pairwise_singleton _ _
  | cons q ps ih =>
    obtain ⟨first, later⟩ := List.pairwise_cons.1 h
    rw [Path.insertNew]
    split
    · next before =>
      refine List.pairwise_cons.2 ⟨fun r hr => ?_, h⟩
      rcases List.mem_cons.1 hr with rfl | hr
      · exact before
      · exact List.lt_trans before (first r hr)
    · next notBefore =>
      split
      · exact h
      · next differs =>
        have behind : q.key < p.key := by
          apply Decidable.byContradiction
          intro notBehind
          exact differs (List.le_antisymm (List.not_lt.1 notBehind) (List.not_lt.1 notBefore))
        refine List.pairwise_cons.2 ⟨fun r hr => ?_, ih later⟩
        rcases mem_insertNew_iff.1 (List.mem_map_of_mem hr) with same | there
        · rwa [key_eq_iff.2 same]
        · obtain ⟨s, hs, same⟩ := List.mem_map.1 there
          rw [← key_eq_iff.2 same]
          exact first s hs

theorem ascending_foldl (h : Ascending ps) (qs : List Path) :
    Ascending (qs.foldl (fun found p => p.insertNew found) ps) := by
  induction qs generalizing ps with
  | nil => exact h
  | cons q qs ih => exact ih (h.insertNew q)

theorem mem_foldl_iff (ps qs : List Path) :
    c ∈ (qs.foldl (fun found p => p.insertNew found) ps).map components ↔
      c ∈ ps.map components ∨ c ∈ qs.map components := by
  induction qs generalizing ps with
  | nil => simp
  | cons q qs ih =>
    rw [List.foldl_cons, ih, mem_insertNew_iff, List.map_cons, List.mem_cons, or_right_comm, or_comm]

/-- Ascending lists are told apart by what they hold. -/
theorem Ascending.eq_of_mem_iff {qs : List Path} (h : Ascending ps) (h' : Ascending qs)
    (same : ∀ c, c ∈ ps.map components ↔ c ∈ qs.map components) :
    ps.map components = qs.map components := by
  have keys (ps : List Path) : ps.map key = (ps.map components).map (List.map Component.key) := by
    rw [List.map_map]
    rfl
  have equal : ps.map key = qs.map key := by
    refine (List.pairwise_map.2 h).eq_of_mem_iff (List.pairwise_map.2 h') fun k => ?_
    rw [keys, keys, List.mem_map, List.mem_map]
    simp only [same]
  rw [keys, keys] at equal
  exact List.map_injective_iff.2 (List.map_injective_iff.2 Component.key_injective) equal

theorem isSource_iff : p.isSource = true ↔ p.extension?.map Text.lower = some "py".toList := by
  unfold isSource
  cases p.extension? <;> simp [sourceExtensions]

end Path

namespace Tree
variable {excluded : Exclusion} {t t' : Tree} {p q : Path} {es es' : Entries} {name : Text}

/-- A walk down from a tree at path `p` comes to the file that it names `q`. No entry that it passes is
hidden or excluded; the name of the tree itself does not count. -/
inductive Walk (excluded : Exclusion) : Tree → Path → Path → Prop
  | file (content : ByteArray) (p : Path) : Walk excluded (file content) p p
  | entry {es : Entries} {name : Text} {t : Tree} {p q : Path} (member : (name, t) ∈ es)
      (shown : name.head? ≠ some '.') (byName : excluded name = false)
      (byPath : excluded (p.join name).text = false) (more : Walk excluded t (p.join name) q) :
      Walk excluded (directory es) p q

theorem mem_sourcesOfEntries :
    q ∈ sourcesOfEntries excluded p es ↔ ∃ e ∈ es, q ∈ sourcesOfEntry excluded p e := by
  induction es with
  | nil => simp [sourcesOfEntries]
  | cons e es ih => simp [sourcesOfEntries, ih]

theorem covers_eq_false_iff : excluded.covers p name = false ↔
    name.head? ≠ some '.' ∧ excluded name = false ∧ excluded (p.join name).text = false := by
  simp [Exclusion.covers, isHidden, and_assoc]

theorem Walk.mem_sources (h : t.Walk excluded p q) (source : q.isSource = true) :
    q ∈ t.sources excluded p := by
  induction h with
  | file content p => simp [sources, source]
  | entry member shown byName byPath _ ih =>
    rw [sources, mem_sourcesOfEntries]
    refine ⟨_, member, ?_⟩
    rw [sourcesOfEntry, covers_eq_false_iff.2 ⟨shown, byName, byPath⟩]
    exact ih source

theorem sizeOf_lt_of_mem (member : (name, t) ∈ es) : sizeOf t < sizeOf (directory es) := by
  have smaller := List.sizeOf_lt_of_mem member
  simp only [directory.sizeOf_spec, Prod.mk.sizeOf_spec] at smaller ⊢
  omega

theorem walk_of_mem_sources (t : Tree) (p : Path) (h : q ∈ t.sources excluded p) :
    t.Walk excluded p q ∧ q.isSource = true := by
  match t with
  | file content =>
    rw [sources] at h
    split at h
    · next source =>
      obtain rfl := List.mem_singleton.1 h
      exact ⟨.file content q, source⟩
    · cases h
  | directory es =>
    rw [sources, mem_sourcesOfEntries] at h
    obtain ⟨⟨name, u⟩, member, inside⟩ := h
    rw [sourcesOfEntry] at inside
    split at inside
    · cases inside
    · next open' =>
      obtain ⟨shown, byName, byPath⟩ := covers_eq_false_iff.1 (Bool.eq_false_iff.2 open')
      obtain ⟨more, source⟩ := walk_of_mem_sources u (p.join name) inside
      exact ⟨.entry member shown byName byPath more, source⟩
termination_by sizeOf t
decreasing_by exact sizeOf_lt_of_mem member

theorem mem_sources_iff :
    q ∈ t.sources excluded p ↔ t.Walk excluded p q ∧ q.isSource = true :=
  ⟨walk_of_mem_sources t p, fun h => h.1.mem_sources h.2⟩

/-- No directory has two entries of one name. -/
inductive Distinct : Tree → Prop
  | file (content : ByteArray) : Distinct (file content)
  | directory {es : Entries} (names : (es.map Prod.fst).Nodup) (inside : ∀ e ∈ es, Distinct e.2) :
      Distinct (directory es)

/-- The same tree, with the entries of each directory in any order. -/
inductive Relisted : Tree → Tree → Prop
  | file (content : ByteArray) : Relisted (file content) (file content)
  | directory {es es' : Entries} (relist : Text × Tree → Tree)
      (inside : ∀ e ∈ es, Relisted e.2 (relist e))
      (order : es'.Perm (es.map fun e => (e.1, relist e))) :
      Relisted (directory es) (directory es')

theorem Relisted.refl (t : Tree) : Relisted t t := by
  match t with
  | .file content => exact .file content
  | .directory es => exact .directory Prod.snd (fun (_, u) member => refl u) (by simp)
termination_by sizeOf t
decreasing_by exact sizeOf_lt_of_mem member

theorem Relisted.walk (h : Relisted t t') : t'.Walk excluded p q ↔ t.Walk excluded p q := by
  induction h generalizing p with
  | file => exact Iff.rfl
  | @directory es es' relist inside order ih =>
    constructor
    · intro walk
      cases walk with
      | entry member shown byName byPath more =>
        obtain ⟨e, he, same⟩ := List.mem_map.1 (order.mem_iff.1 member)
        cases same
        exact .entry he shown byName byPath ((ih e he).1 more)
    · intro walk
      cases walk with
      | @entry _ name u _ _ member shown byName byPath more =>
        have listed := order.mem_iff.2 (List.mem_map_of_mem member)
        exact .entry listed shown byName byPath ((ih _ member).2 more)

theorem lookup_eq_some_iff_mem {u : Tree} (names : (es.map Prod.fst).Nodup) :
    es.lookup name = some u ↔ (name, u) ∈ es := by
  induction es with
  | nil => simp
  | cons e es ih =>
    obtain ⟨n, v⟩ := e
    rw [List.map_cons, List.nodup_cons] at names
    obtain ⟨fresh, names⟩ := names
    by_cases here : name = n
    · subst here
      have absent : (name, u) ∉ es := fun member => fresh (List.mem_map.2 ⟨_, member, rfl⟩)
      simp [absent, eq_comm]
    · have differs : (name == n) = false := beq_eq_false_iff_ne.2 here
      simp [List.lookup_cons, differs, here, ih names]

/-- An entry is found wherever it is listed. -/
theorem lookup_relist {relist : Text × Tree → Tree} (names : (es.map Prod.fst).Nodup)
    (order : es'.Perm (es.map fun e => (e.1, relist e))) (name : Text) :
    es'.lookup name = (es.lookup name).map fun u => relist (name, u) := by
  have names' : (es'.map Prod.fst).Nodup := by
    rw [(order.map Prod.fst).nodup_iff, List.map_map]
    exact names
  ext u
  rw [lookup_eq_some_iff_mem names', order.mem_iff]
  simp only [List.mem_map, Option.map_eq_some_iff, lookup_eq_some_iff_mem names]
  constructor
  · rintro ⟨e, he, same⟩
    cases same
    exact ⟨e.2, he, rfl⟩
  · rintro ⟨v, hv, rfl⟩
    exact ⟨(name, v), hv, rfl⟩

/-- So the same lies at every place, up to the order of entries. -/
theorem Relisted.find? (h : Relisted t t') (distinct : t.Distinct) (place : List Text) :
    Option.Rel Relisted (t.find? place) (t'.find? place) := by
  induction place generalizing t t' with
  | nil => exact .some h
  | cons name names ih =>
    cases h with
    | file => exact .none
    | @directory es _ relist inside order =>
      cases distinct with
      | directory unique distinct =>
        rw [Tree.find?, Tree.find?, lookup_relist unique order]
        cases found : es.lookup name with
        | none => exact .none
        | some u =>
          have member := (lookup_eq_some_iff_mem unique).1 found
          exact ih (inside _ member) (distinct _ member)

theorem Relisted.look (h : Relisted t t') (distinct : t.Distinct) (place : List Text) :
    t'.look place = t.look place := by
  have related := h.find? distinct place
  unfold Tree.look
  generalize t.find? place = x at related
  generalize t'.find? place = x' at related
  cases related with
  | none => rfl
  | some h => cases h <;> rfl

end Tree

namespace Workspace
variable {w w' : Workspace} {excluded : Exclusion} {inputs inputs' : List Path} {p q : Path}

/-- The inputs that are source files, and the source files below the inputs that are directories. -/
def Finds (excluded : Exclusion) (w : Workspace) (inputs : List Path) (q : Path) : Prop :=
  ∃ p ∈ inputs, ∃ t, w.find? p = some t ∧ t.Walk excluded p q ∧
    q.extension?.map Text.lower = some "py".toList

theorem mem_sourcesAt_iff :
    q ∈ w.sourcesAt excluded p ↔
      ∃ t, w.find? p = some t ∧ t.Walk excluded p q ∧
        q.extension?.map Text.lower = some "py".toList := by
  unfold sourcesAt
  cases w.find? p with
  | none => simp
  | some t => simp [Tree.mem_sources_iff, Path.isSource_iff]

theorem ascending_discover (excluded : Exclusion) (w : Workspace) (inputs : List Path) :
    Path.Ascending (w.discover excluded inputs) := Path.ascending_foldl .nil _

theorem mem_discover_iff {c : List Path.Component} :
    c ∈ (w.discover excluded inputs).map Path.components ↔
      ∃ q, w.Finds excluded inputs q ∧ q.components = c := by
  rw [discover, Path.mem_foldl_iff]
  simp only [List.map_nil, List.not_mem_nil, false_or, List.mem_map, List.mem_flatMap,
    mem_sourcesAt_iff, Finds]

/-- What a path names is the same, up to the order of entries. -/
theorem find?_relisted (directory : w'.directory = w.directory) (distinct : w.tree.Distinct)
    (relisted : w.tree.Relisted w'.tree) (p : Path) :
    Option.Rel Tree.Relisted (w.find? p) (w'.find? p) := by
  have shape : SameShape w w' := by
    refine ⟨directory, fun place => ?_⟩
    rw [look, look, relisted.look distinct]
  unfold find?
  rw [shape.place?]
  cases w.place? p with
  | none => exact .none
  | some place => exact relisted.find? distinct place

theorem finds_iff (order : inputs'.Perm inputs) (directory : w'.directory = w.directory)
    (distinct : w.tree.Distinct) (relisted : w.tree.Relisted w'.tree) :
    w'.Finds excluded inputs' q ↔ w.Finds excluded inputs q := by
  have walks (p : Path) : (∃ t, w'.find? p = some t ∧ t.Walk excluded p q) ↔
      ∃ t, w.find? p = some t ∧ t.Walk excluded p q := by
    have related := find?_relisted directory distinct relisted p
    generalize w.find? p = x at related ⊢
    generalize w'.find? p = x' at related ⊢
    cases related with
    | none => simp
    | some same => simp [same.walk]
  unfold Finds
  simp only [order.mem_iff, ← and_assoc, exists_and_right, walks]

/-- The paths that are discovered are strictly ascending by their components, and they are those of the
source files that walks from the inputs come to. They are the same for every order of the inputs and of
the entries of directories. -/
theorem discover_exact (excluded : Exclusion) (w : Workspace) (inputs : List Path) :
    (w.discover excluded inputs).Pairwise (·.key < ·.key) ∧
    ((w.discover excluded inputs).map Path.components).Nodup ∧
    (∀ c, c ∈ (w.discover excluded inputs).map Path.components ↔
      ∃ q, w.Finds excluded inputs q ∧ q.components = c) ∧
    ∀ (inputs' : List Path) (w' : Workspace), inputs'.Perm inputs → w'.directory = w.directory →
      w.tree.Distinct → w.tree.Relisted w'.tree →
      (w'.discover excluded inputs').map Path.components =
        (w.discover excluded inputs).map Path.components := by
  have ascending := ascending_discover excluded w inputs
  refine ⟨ascending, ?_, fun c => mem_discover_iff,
    fun inputs' w' order directory distinct relisted => ?_⟩
  · refine List.pairwise_map.2 (ascending.imp fun before same => ?_)
    rw [Path.key_eq_iff.2 same] at before
    exact List.lt_irrefl _ before
  · refine (ascending_discover excluded w' inputs').eq_of_mem_iff ascending fun c => ?_
    rw [mem_discover_iff, mem_discover_iff]
    simp only [finds_iff order directory distinct relisted]

/-- A directory with a hidden file, a directory that is left out, and an extension in upper case. -/
def mixed : Entries :=
  let empty : Tree := .file ByteArray.empty
  [("a.py".toList, empty), (".b.py".toList, empty),
    ("skip".toList, .directory [("x.py".toList, empty)]),
    ("sub".toList, .directory [("C.PY".toList, empty), ("n.txt".toList, empty)])]

def holding (es : Entries) : Workspace := ⟨.directory [("p".toList, .directory es)], []⟩

/-- The last file is met three times. -/
def overlapping : List Path := ["p/sub/C.PY", "p", "p//sub"].map Path.ofString

theorem discover_exact_overlapping :
    (overlapping.reverse.Perm overlapping ∧ (holding mixed).tree.Distinct ∧
      (holding mixed).tree.Relisted (holding mixed.reverse).tree) ∧
    ((holding mixed.reverse).discover (· == "skip".toList) overlapping.reverse).map Path.components =
      ["p/a.py", "p/sub/C.PY"].map fun t => (Path.ofString t).components := by
  have files (es : Entries) (names : (es.map Prod.fst).Nodup) (flat : ∀ e ∈ es, ∃ c, e.2 = .file c) :
      (Tree.directory es).Distinct := by
    refine .directory names fun e he => ?_
    obtain ⟨c, hc⟩ := flat e he
    rw [hc]
    exact .file c
  have distinct : (holding mixed).tree.Distinct := by
    refine .directory (by decide) (List.forall_mem_singleton.2 (.directory (by decide) ?_))
    refine List.forall_mem_cons.2 ⟨.file _, List.forall_mem_cons.2 ⟨.file _, List.forall_mem_cons.2
      ⟨files _ (by decide) (by simp), List.forall_mem_singleton.2 (files _ (by decide) (by simp))⟩⟩⟩
  have relisted : (holding mixed).tree.Relisted (holding mixed.reverse).tree := by
    refine .directory (fun _ => .directory mixed.reverse) (List.forall_mem_singleton.2 ?_) (.refl _)
    exact .directory Prod.snd (fun e _ => .refl e.2) (by simp)
  have order : overlapping.reverse.Perm overlapping := List.reverse_perm _
  have found : ((holding mixed).discover (· == "skip".toList) overlapping).map Path.components =
      ["p/a.py", "p/sub/C.PY"].map fun t => (Path.ofString t).components := by decide
  obtain ⟨-, -, -, same⟩ := discover_exact (· == "skip".toList) (holding mixed) overlapping
  exact ⟨⟨order, distinct, relisted⟩,
    (same _ (holding mixed.reverse) order rfl distinct relisted).trans found⟩

end Workspace
end HostSql
