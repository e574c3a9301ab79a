import HostSql.Files.Path
import HostSql.Proofs.Text.Lines
import Mathlib.Data.List.Infix

/-! The paths above a path. One path lies above another if its components are the other's, from the first
on but not all of them; what is listed above a path is exactly that, from the nearest to the farthest. -/
namespace HostSql

/-- A text is read back from its pieces. -/
theorem Text.splitWhere_intercalate {pieces : List Text} (some : pieces ≠ [])
    (solid : ∀ piece ∈ pieces, '/' ∉ piece) :
    Text.splitWhere (· == '/') (List.intercalate ['/'] pieces) = pieces := by
  have whole {piece : Text} (h : '/' ∉ piece) : Text.splitWhere (· == '/') piece = [piece] :=
    Text.splitWhere_of_none fun c hc => beq_false_of_ne fun same => h (same ▸ hc)
  induction pieces with
  | nil => exact absurd rfl some
  | cons piece pieces ih =>
    obtain ⟨first, later⟩ := List.forall_mem_cons.1 solid
    cases pieces with
    | nil => simpa using whole first
    | cons next rest =>
      have ih := ih (List.cons_ne_nil _ _) later
      rw [List.intercalate_cons_cons, List.append_assoc, List.singleton_append,
        Text.splitWhere_append rfl, whole first, ih, List.singleton_append]

namespace Path

/-- The first path is the second one or lies above it. Only a rooted path lies above a rooted one. -/
structure IsOver (a d : Path) : Prop where
  rooted : a.isRooted = d.isRooted
  leads : a.components <+: d.components

/-- The first path lies above the second one. -/
def IsAbove (a d : Path) : Prop := a.IsOver d ∧ ¬ a.isSame d

instance (a d : Path) : Decidable (a.IsOver d) :=
  decidable_of_iff (a.isRooted = d.isRooted ∧ a.components <+: d.components)
    ⟨fun ⟨rooted, leads⟩ => ⟨rooted, leads⟩, fun higher => ⟨higher.rooted, higher.leads⟩⟩

instance (a d : Path) : Decidable (a.IsAbove d) := inferInstanceAs (Decidable (_ ∧ _))

/-- What the first piece of a path that is not empty says. -/
def Component.ofFirst (piece : Text) : Component :=
  if piece = [] then .root else if piece = ['.'] then .current else
    if piece = ['.', '.'] then .parent else .name piece

/-- The components that pieces say, both from the last to the first. -/
def said : List Text → List Component
  | [] => []
  | [first] => [.ofFirst first]
  | piece :: next :: rest => (Component.ofPiece? piece).toList ++ said (next :: rest)

section
variable {a b d e q : Path} {c : Component} {piece first : Text} {ps qs : List Text}

theorem isSame_iff : a.isSame d = true ↔ a.components = d.components := beq_iff_eq

theorem isSame_refl (d : Path) : d.isSame d = true := isSame_iff.2 rfl

theorem isSame_comm : a.isSame d = d.isSame a := BEq.comm

theorem Component.ofFirst_eq_root_iff : Component.ofFirst first = .root ↔ first = [] := by
  unfold Component.ofFirst
  split_ifs <;> simp [*]

theorem Component.ofPiece?_ne_root : Component.ofPiece? piece ≠ some .root := by
  unfold Component.ofPiece?
  split_ifs <;> simp

theorem Component.ofPiece?_of_isVoid (void : isVoid piece = true) : Component.ofPiece? piece = none :=
  if_pos void

theorem Component.exists_ofPiece? (solid : ¬ isVoid piece = true) :
    ∃ c ≠ .root, Component.ofPiece? piece = some c := by
  cases found : Component.ofPiece? piece with
  | none =>
    unfold Component.ofPiece? at found
    split_ifs at found
  | some c => exact ⟨c, fun root => Component.ofPiece?_ne_root (root ▸ found), rfl⟩

theorem isRooted_iff : d.isRooted = true ↔ .root ∈ d.components := by
  have named : Component.root ∉ d.pieces.filterMap Component.ofPiece? := by
    intro member
    obtain ⟨piece, -, root⟩ := List.mem_filterMap.1 member
    exact Component.ofPiece?_ne_root root
  unfold components
  split_ifs <;> simp [*]

/-! ## Components by pieces -/

theorem said_concat (ps : List Text) (first : Text) :
    said (ps ++ [first]) = ps.filterMap Component.ofPiece? ++ [.ofFirst first] := by
  induction ps with
  | nil => rfl
  | cons piece ps ih =>
    obtain ⟨next, rest, shape⟩ := List.exists_cons_of_ne_nil (List.append_ne_nil_of_right_ne_nil ps
      (List.cons_ne_nil first []))
    rw [List.cons_append, shape, said, ← shape, ih, ← List.append_assoc]
    cases found : Component.ofPiece? piece <;> simp [found]

/-- A path begins with a slash exactly if its first piece is empty and its text is not. -/
theorem exists_pieces (filled : d.text ≠ []) :
    ∃ first more, d.pieces = first :: more ∧ (d.isRooted = true ↔ first = []) := by
  obtain ⟨t⟩ := d
  obtain ⟨c, t, rfl⟩ := List.exists_cons_of_ne_nil filled
  by_cases slash : c = '/'
  · subst slash
    exact ⟨[], _, Text.splitWhere_cons_of_pos rfl t, by simp [isRooted]⟩
  · have plain : (c == '/') = false := beq_false_of_ne slash
    obtain ⟨first, more, -, shape⟩ := Text.splitWhere_cons_of_neg (p := (· == '/')) plain t
    exact ⟨c :: first, more, shape, by simp [isRooted, slash]⟩

theorem components_eq_said (filled : d.text ≠ []) : d.components.reverse = said d.pieces.reverse := by
  obtain ⟨first, more, shape, rooted⟩ := exists_pieces filled
  have lead : d.components = .ofFirst first :: more.filterMap Component.ofPiece? := by
    unfold components Component.ofFirst
    rw [shape]
    by_cases void : first = []
    · simp [rooted.2 void, void, Component.ofPiece?, isVoid]
    · have relative : ¬ d.isRooted = true := fun h => void (rooted.1 h)
      by_cases dot : first = ['.'] <;> by_cases up : first = ['.', '.'] <;>
        simp [relative, void, dot, up, Component.ofPiece?, isVoid]
  rw [lead, shape, List.reverse_cons, List.reverse_cons, said_concat, List.filterMap_reverse]

theorem suffix_of_above? (h : above? ps = some qs) : qs <:+ ps := by
  fun_induction above? ps with
  | case1 => cases h
  | case2 => cases h
  | case3 => cases h; exact List.nil_suffix
  | case4 piece next rest void ih => exact (ih h).trans (List.suffix_cons _ _)
  | case5 => cases h; exact List.suffix_cons _ _

/-- Going up leaves out the last component, which is not the root. -/
theorem said_of_above? (h : above? ps = some qs) : ∃ c ≠ .root, said ps = c :: said qs := by
  fun_induction above? ps with
  | case1 => cases h
  | case2 => cases h
  | case3 first filled =>
    cases h
    exact ⟨_, fun root => filled (List.isEmpty_iff.2 (Component.ofFirst_eq_root_iff.1 root)), rfl⟩
  | case4 piece next rest void ih =>
    obtain ⟨c, hc, shape⟩ := ih h
    exact ⟨c, hc, by rw [said, Component.ofPiece?_of_isVoid void, shape]; rfl⟩
  | case5 piece next rest solid =>
    cases h
    obtain ⟨c, hc, found⟩ := Component.exists_ofPiece? solid
    exact ⟨c, hc, by rw [said, found]; rfl⟩

/-- Nothing is above the root and above the path without components. -/
theorem said_of_above?_eq_none (h : above? ps = none) : said ps = [] ∨ said ps = [.root] := by
  fun_induction above? ps with
  | case1 => exact .inl rfl
  | case2 first void =>
    exact .inr (by rw [said, Component.ofFirst_eq_root_iff.2 (List.isEmpty_iff.1 void)])
  | case3 => cases h
  | case4 piece next rest void ih =>
    rw [said, Component.ofPiece?_of_isVoid void]
    exact ih h
  | case5 => cases h

theorem pieces_intercalate (some : ps ≠ []) (solid : ∀ piece ∈ ps, '/' ∉ piece) :
    (⟨List.intercalate ['/'] ps.reverse⟩ : Path).pieces.reverse = ps := by
  unfold pieces
  rw [Text.splitWhere_intercalate (by simpa) (by simpa), List.reverse_reverse]

theorem said_ofReversed (solid : ∀ piece ∈ ps, '/' ∉ piece) :
    (ofReversed ps).components.reverse = said ps := by
  fun_induction ofReversed ps with
  | case1 => rfl
  | case2 first =>
    by_cases void : first = []
    · subst void; rfl
    · have whole := pieces_intercalate (List.cons_ne_nil first []) solid
      rw [List.reverse_singleton, List.intercalate_singleton] at whole
      rw [if_neg (by simpa), components_eq_said void, whole]
  | case3 piece next rest void ih =>
    rw [ih (List.forall_mem_cons.1 solid).2, said, Component.ofPiece?_of_isVoid void]
    rfl
  | case4 piece next rest _ =>
    have whole := pieces_intercalate (List.cons_ne_nil piece (next :: rest)) solid
    have filled : List.intercalate ['/'] (piece :: next :: rest).reverse ≠ [] := by
      intro empty
      rw [empty] at whole
      cases whole
    exact (components_eq_said filled).trans (congrArg said whole)

theorem above?_ofReversed (solid : ∀ piece ∈ ps, '/' ∉ piece) :
    above? (ofReversed ps).pieces.reverse = above? ps := by
  fun_induction ofReversed ps with
  | case1 => rfl
  | case2 first =>
    by_cases void : first = []
    · subst void; rfl
    · have whole := pieces_intercalate (List.cons_ne_nil first []) solid
      rw [List.reverse_singleton, List.intercalate_singleton] at whole
      rw [if_neg (by simpa), whole]
  | case3 piece next rest void ih => rw [ih (List.forall_mem_cons.1 solid).2, above?, if_pos void]
  | case4 piece next rest _ => rw [pieces_intercalate (List.cons_ne_nil _ _) solid]

theorem solid_pieces (p : Path) : ∀ piece ∈ p.pieces.reverse, '/' ∉ piece := fun piece member slash =>
  absurd (Text.of_mem_splitWhere (List.mem_reverse.1 member) _ slash) (by simp)

/-! ## One step up -/

theorem exists_of_parent? (h : d.parent? = some q) :
    ∃ qs, above? d.pieces.reverse = some qs ∧ q = ofReversed qs ∧ ∀ piece ∈ qs, '/' ∉ piece := by
  obtain ⟨qs, found, rfl⟩ := Option.map_eq_some_iff.1 h
  exact ⟨qs, found, rfl, fun piece member =>
    solid_pieces d piece ((suffix_of_above? found).subset member)⟩

/-- The parent has all components but the last. -/
theorem components_of_parent? (h : d.parent? = some q) :
    ∃ c ≠ .root, d.components = q.components ++ [c] := by
  obtain ⟨qs, found, rfl, solid⟩ := exists_of_parent? h
  obtain ⟨c, hc, shape⟩ := said_of_above? found
  have filled : d.text ≠ [] := by
    intro empty
    rw [pieces, empty] at found
    cases found
  refine ⟨c, hc, List.reverse_injective ?_⟩
  rw [components_eq_said filled, shape, List.reverse_append, said_ofReversed solid]
  rfl

theorem components_of_parent?_eq_none (h : d.parent? = none) :
    d.components = [] ∨ d.components = [.root] := by
  by_cases empty : d.text = []
  · obtain ⟨t⟩ := d
    cases empty
    exact .inl rfl
  · have top := said_of_above?_eq_none (Option.map_eq_none_iff.1 h)
    rw [← components_eq_said empty] at top
    exact top.imp List.reverse_eq_nil_iff.1 (fun root => List.reverse_injective root)

theorem allAbove_of_above? (h : above? ps = some qs) : allAbove ps = ofReversed qs :: allAbove qs := by
  rw [allAbove]
  split <;> simp_all

theorem allAbove_of_above?_eq_none (h : above? ps = none) : allAbove ps = [] := by
  rw [allAbove]
  split <;> simp_all

theorem allAbove_congr (same : above? ps = above? qs) : allAbove ps = allAbove qs := by
  cases found : above? qs with
  | none => rw [allAbove_of_above?_eq_none found, allAbove_of_above?_eq_none (same.trans found)]
  | some rs => rw [allAbove_of_above? found, allAbove_of_above? (same.trans found)]

theorem withAncestors_of_parent? (h : d.parent? = some q) : d.withAncestors = d :: q.withAncestors := by
  obtain ⟨qs, found, rfl, solid⟩ := exists_of_parent? h
  rw [withAncestors, allAbove_of_above? found, withAncestors, allAbove_congr (above?_ofReversed solid)]

theorem withAncestors_of_parent?_eq_none (h : d.parent? = none) : d.withAncestors = [d] := by
  rw [withAncestors, allAbove_of_above?_eq_none (Option.map_eq_none_iff.1 h)]

/-- What holds of the topmost paths and is passed on from the parent holds of every path. -/
theorem climb {P : Path → Prop} (top : ∀ d, d.parent? = none → P d)
    (below : ∀ d q, d.parent? = some q → P q → P d) (d : Path) : P d := by
  induction h : d.components.length generalizing d with
  | zero =>
    cases up : d.parent? with
    | none => exact top d up
    | some q =>
      obtain ⟨c, -, shape⟩ := components_of_parent? up
      simp [shape] at h
  | succ n ih =>
    cases up : d.parent? with
    | none => exact top d up
    | some q =>
      obtain ⟨c, -, shape⟩ := components_of_parent? up
      exact below d q up (ih q (by simpa [shape] using h))

/-! ## All steps up -/

theorem isRooted_congr (same : a.isSame d = true) : a.isRooted = d.isRooted :=
  Bool.eq_iff_iff.2 (by rw [isRooted_iff, isRooted_iff, isSame_iff.1 same])

theorem IsOver.of_isSame (same : a.isSame d = true) : a.IsOver d :=
  ⟨isRooted_congr same, isSame_iff.1 same ▸ List.prefix_refl _⟩

theorem IsOver.refl (d : Path) : d.IsOver d := .of_isSame (isSame_refl d)

theorem IsOver.trans (h : a.IsOver b) (h' : b.IsOver d) : a.IsOver d :=
  ⟨h.rooted.trans h'.rooted, h.leads.trans h'.leads⟩

theorem isOver_of_parent? (h : d.parent? = some q) : a.IsOver d ↔ a.isSame d = true ∨ a.IsOver q := by
  obtain ⟨c, hc, shape⟩ := components_of_parent? h
  have rooted : q.isRooted = d.isRooted :=
    Bool.eq_iff_iff.2 (by rw [isRooted_iff, isRooted_iff, shape]; simp [hc.symm])
  constructor
  · intro higher
    rcases List.prefix_concat_iff.1 (shape ▸ higher.leads) with same | leads
    · exact .inl (isSame_iff.2 (same.trans shape.symm))
    · exact .inr ⟨higher.rooted.trans rooted.symm, leads⟩
  · rintro (same | higher)
    · exact .of_isSame same
    · exact ⟨higher.rooted.trans rooted, shape ▸ higher.leads.trans (List.prefix_append _ _)⟩

/-- There is one topmost path of each kind. -/
theorem components_of_top (h : d.parent? = none) :
    d.components = if d.isRooted then [.root] else [] := by
  rcases components_of_parent?_eq_none h with none | root
  · have relative : ¬ d.isRooted = true := by rw [isRooted_iff, none]; exact List.not_mem_nil
    rw [if_neg relative, none]
  · have rooted : d.isRooted = true := by rw [isRooted_iff, root]; exact List.mem_cons_self
    rw [if_pos rooted, root]

theorem isOver_of_parent?_eq_none (h : d.parent? = none) : a.IsOver d ↔ a.isSame d = true := by
  refine ⟨fun higher => isSame_iff.2 ?_, .of_isSame⟩
  have short := higher.leads
  rcases components_of_parent?_eq_none h with none | root
  · rw [none] at short ⊢
    exact List.prefix_nil.1 short
  · have rooted : .root ∈ a.components := by
      rw [← isRooted_iff, higher.rooted, isRooted_iff, root]
      exact List.mem_cons_self
    rw [root] at short ⊢
    exact short.eq_of_length_le (List.length_pos_of_mem rooted)

/-- What is listed for a path, however it is spelled, is the path and all that lies above it. -/
theorem exists_mem_withAncestors_iff :
    (∃ b ∈ d.withAncestors, b.isSame a = true) ↔ a.IsOver d := by
  induction d using climb with
  | top d up =>
    rw [withAncestors_of_parent?_eq_none up, isOver_of_parent?_eq_none up, isSame_comm]
    simp
  | below d q up ih =>
    rw [withAncestors_of_parent? up, isOver_of_parent? up, ← ih, isSame_comm]
    simp

theorem isOver_of_mem_withAncestors (member : a ∈ d.withAncestors) : a.IsOver d :=
  exists_mem_withAncestors_iff.1 ⟨a, member, isSame_refl a⟩

/-- Whoever lies above the parent is no spelling of the path. -/
theorem isAbove_of_parent? (h : d.parent? = some q) (higher : a.IsOver q) : a.IsAbove d := by
  refine ⟨(isOver_of_parent? h).2 (.inr higher), fun same => ?_⟩
  obtain ⟨c, -, shape⟩ := components_of_parent? h
  have short := higher.leads.length_le
  rw [isSame_iff.1 same, shape, List.length_append, List.length_singleton] at short
  omega

/-- The nearest path comes first. -/
theorem withAncestors_ascends (d : Path) : d.withAncestors.Pairwise fun a b => b.IsAbove a := by
  induction d using climb with
  | top d up => rw [withAncestors_of_parent?_eq_none up]; exact List.pairwise_singleton _ _
  | below d q up ih =>
    rw [withAncestors_of_parent? up]
    exact List.pairwise_cons.2
      ⟨fun b member => isAbove_of_parent? up (isOver_of_mem_withAncestors member), ih⟩

theorem IsAbove.not_isOver (h : a.IsAbove d) : ¬ d.IsOver a := fun higher =>
  h.2 (isSame_iff.2 (h.1.leads.eq_of_length_le higher.leads.length_le))

theorem exists_top (d : Path) : ∃ a : Path, a.parent? = none ∧ a.IsOver d := by
  induction d using climb with
  | top d up => exact ⟨d, up, .refl d⟩
  | below d q up ih =>
    obtain ⟨a, top, higher⟩ := ih
    exact ⟨a, top, (isOver_of_parent? up).2 (.inr higher)⟩

/-- All paths of one kind have one above them or are it. -/
theorem exists_isOver (same : d.isRooted = e.isRooted) : ∃ a : Path, a.IsOver d ∧ a.IsOver e := by
  obtain ⟨a, top, higher⟩ := exists_top d
  obtain ⟨b, top', higher'⟩ := exists_top e
  refine ⟨a, higher, .trans (.of_isSame (isSame_iff.2 ?_)) higher'⟩
  rw [components_of_top top, components_of_top top', higher.rooted, higher'.rooted, same]

end
end Path
end HostSql
