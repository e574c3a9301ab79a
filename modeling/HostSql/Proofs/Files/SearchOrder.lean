import HostSql.Proofs.Files.Ancestors
import HostSql.Settings

/-! The directories in which settings are looked for. Each input gives its own directory and all that lie
above it, and no directory is listed twice. Whether the nearer one always comes first depends on the inputs:
it does exactly if, among absolute paths and among relative ones, no search begins elsewhere than in the
directory of the first input or above it. -/
namespace HostSql
namespace Settings
open HostSql.Path

/-- The first input whose directory is given by an absolute path as that of `p` is, or by a relative one. -/
def firstLike? (w : Workspace) (inputs : List Path) (p : Path) : Option Path :=
  inputs.find? fun q => (start w q).isRooted == (start w p).isRooted

/-- Every input begins its search where the first one of its kind does, or above it. -/
def Climbs (w : Workspace) (inputs : List Path) : Prop :=
  ∀ p ∈ inputs, ∀ q ∈ firstLike? w inputs p, (start w p).IsOver (start w q)

/-- What a list holds, whatever the spelling. -/
def Lists (ds : List Path) (a : Path) : Prop := ∃ d ∈ ds, d.isSame a = true

/-- No directory comes behind one that lies above it. -/
def NearestFirst (dirs : List Path) : Prop := dirs.Pairwise fun a d => ¬ a.IsAbove d

/-- The search of another input begins where it has already been, or nothing above it was searched. -/
def Joins (w : Workspace) (before : List Path) (p : Path) : Prop :=
  (∃ q ∈ before, (start w p).IsOver (start w q)) ∨
    ∀ q ∈ before, (start w q).isRooted ≠ (start w p).isRooted

/-- One of the directories has this file, and none of those below it has one. -/
def IsNearest (w : Workspace) (dirs : List Path) (f : Path) : Prop :=
  ∃ d ∈ dirs, fileIn? w d = some f ∧ ∀ b ∈ dirs, d.IsAbove b → fileIn? w b = none

instance (dirs : List Path) : Decidable (NearestFirst dirs) :=
  inferInstanceAs (Decidable (dirs.Pairwise _))

instance (w : Workspace) (inputs : List Path) : Decidable (Climbs w inputs) :=
  inferInstanceAs (Decidable (∀ p ∈ inputs, ∀ q ∈ firstLike? w inputs p, _))

section
variable {w : Workspace} {inputs before : List Path} {ds es : List Path} {a b d p q : Path}

theorem distinct_concat (ds : List Path) (d : Path) :
    distinct (ds ++ [d]) =
      if (distinct ds).any (·.isSame d) then distinct ds else distinct ds ++ [d] := by
  unfold distinct
  rw [List.foldl_append, List.foldl_cons, List.foldl_nil]

theorem distinct_concat_of_lists (listed : Lists (distinct ds) d) : distinct (ds ++ [d]) = distinct ds := by
  rw [distinct_concat, if_pos (List.any_eq_true.2 listed)]

theorem distinct_concat_of_not_lists (fresh : ¬ Lists (distinct ds) d) :
    distinct (ds ++ [d]) = distinct ds ++ [d] := by
  rw [distinct_concat, if_neg fun any => fresh (List.any_eq_true.1 any)]

theorem lists_append : Lists (ds ++ es) a ↔ Lists ds a ∨ Lists es a := by
  simp only [Lists, List.mem_append, or_and_right, exists_or]

theorem lists_singleton : Lists [d] a ↔ d.isSame a = true := by
  simp only [Lists, List.mem_singleton, exists_eq_left]

theorem Lists.of_isSame (listed : Lists ds d) (same : d.isSame a = true) : Lists ds a := by
  obtain ⟨x, member, same'⟩ := listed
  exact ⟨x, member, isSame_iff.2 ((isSame_iff.1 same').trans (isSame_iff.1 same))⟩

/-- New entries stand behind the old ones, in the order in which they came, and differ from these. -/
theorem exists_distinct_append (ds es : List Path) :
    ∃ new, distinct (ds ++ es) = distinct ds ++ new ∧ new.Sublist es ∧
      ∀ d ∈ new, ¬ Lists (distinct ds) d := by
  induction es using List.reverseRecOn with
  | nil => exact ⟨[], by simp, .slnil, by simp⟩
  | append_singleton es e ih =>
    obtain ⟨new, shape, sub, fresh⟩ := ih
    rw [← List.append_assoc]
    by_cases listed : Lists (distinct (ds ++ es)) e
    · rw [distinct_concat_of_lists listed]
      exact ⟨new, shape, sub.trans (List.sublist_append_left es [e]), fresh⟩
    · rw [distinct_concat_of_not_lists listed, shape]
      rw [shape, lists_append, not_or] at listed
      refine ⟨new ++ [e], List.append_assoc _ _ _, sub.append_right [e], fun d hd => ?_⟩
      rcases List.mem_append.1 hd with hd | hd
      · exact fresh d hd
      · rw [List.mem_singleton.1 hd]
        exact listed.1

/-- Leaving out spellings of what is there already changes nothing about what is listed. -/
theorem lists_distinct_iff : Lists (distinct ds) a ↔ Lists ds a := by
  induction ds using List.reverseRecOn with
  | nil => rfl
  | append_singleton ds d ih =>
    rw [lists_append, lists_singleton]
    by_cases listed : Lists (distinct ds) d
    · rw [distinct_concat_of_lists listed, ih, iff_self_or]
      exact fun same => ih.1 (listed.of_isSame same)
    · rw [distinct_concat_of_not_lists listed, lists_append, lists_singleton, ih]

theorem distinct_pairwise (ds : List Path) : (distinct ds).Pairwise fun a b => ¬ a.isSame b = true := by
  induction ds using List.reverseRecOn with
  | nil => exact List.Pairwise.nil
  | append_singleton ds d ih =>
    by_cases listed : Lists (distinct ds) d
    · rwa [distinct_concat_of_lists listed]
    · rw [distinct_concat_of_not_lists listed]
      refine List.pairwise_append.2 ⟨ih, List.pairwise_singleton _ _, fun a ha b hb same => ?_⟩
      rw [List.mem_singleton.1 hb] at same
      exact listed ⟨a, ha, same⟩

/-- The directories of the inputs and all that lie above these are searched, and nothing else. -/
theorem lists_searched_iff : Lists (searched w inputs) a ↔ ∃ p ∈ inputs, a.IsOver (start w p) := by
  unfold searched
  rw [lists_distinct_iff]
  simp only [← exists_mem_withAncestors_iff, Lists, List.mem_flatMap]
  constructor
  · rintro ⟨d, ⟨p, hp, hd⟩, same⟩
    exact ⟨p, hp, d, hd, same⟩
  · rintro ⟨p, hp, d, hd, same⟩
    exact ⟨d, ⟨p, hp, hd⟩, same⟩

theorem exists_searched_concat (w : Workspace) (before : List Path) (p : Path) :
    ∃ new, searched w (before ++ [p]) = searched w before ++ new ∧
      new.Sublist (start w p).withAncestors ∧ ∀ d ∈ new, ¬ Lists (searched w before) d := by
  unfold searched
  rw [List.flatMap_append, List.flatMap_singleton]
  exact exists_distinct_append _ _

theorem nearestFirst_concat : NearestFirst (searched w (before ++ [p])) ↔
    NearestFirst (searched w before) ∧ Joins w before p := by
  obtain ⟨new, shape, sub, fresh⟩ := exists_searched_concat w before p
  have climbing : NearestFirst new :=
    ((withAncestors_ascends (start w p)).sublist sub).imp fun above below => below.not_isOver above.1
  have listed : Lists (searched w before ++ new) (start w p) := by
    rw [← shape, lists_searched_iff]
    exact ⟨p, List.mem_concat_self, .refl _⟩
  unfold NearestFirst at climbing ⊢
  rw [shape, List.pairwise_append]
  refine ⟨fun ⟨first, _, apart⟩ => ⟨first, ?_⟩, fun ⟨first, joins⟩ => ⟨first, climbing, ?_⟩⟩
  · by_cases seen : ∃ q ∈ before, (start w p).IsOver (start w q)
    · exact .inl seen
    · refine .inr fun q hq same => ?_
      -- What lies above both was searched for the first, and stands before the directory of the second.
      obtain ⟨a, higher, higher'⟩ := exists_isOver same
      obtain ⟨x, hx, spelled⟩ := lists_searched_iff.2 ⟨q, hq, higher⟩
      rcases lists_append.1 listed with old | ⟨y, hy, spelled'⟩
      · exact seen (lists_searched_iff.1 old)
      · have above : x.IsOver y :=
          .trans (.of_isSame spelled) (higher'.trans (.of_isSame (isSame_comm.trans spelled')))
        exact apart x hx y hy ⟨above, fun same => fresh y hy ⟨x, hx, same⟩⟩
  · intro a ha b hb above
    have higher := isOver_of_mem_withAncestors (sub.subset hb)
    rcases joins with ⟨q, hq, seen⟩ | other
    · exact fresh b hb (lists_searched_iff.2 ⟨q, hq, higher.trans seen⟩)
    · obtain ⟨q, hq, higher'⟩ := lists_searched_iff.1 ⟨a, ha, isSame_refl a⟩
      exact other q hq (higher'.rooted.symm.trans (above.1.rooted.trans higher.rooted))

theorem exists_firstLike? (hq : q ∈ inputs) (same : (start w q).isRooted = (start w p).isRooted) :
    ∃ first ∈ inputs, firstLike? w inputs p = some first := by
  have there : (firstLike? w inputs p).isSome = true := List.find?_isSome.2 ⟨q, hq, by simpa using same⟩
  obtain ⟨first, found⟩ := Option.isSome_iff_exists.1 there
  exact ⟨first, List.mem_of_find?_eq_some found, found⟩

theorem firstLike?_concat {first : Path} (found : firstLike? w before p = some first) (e : Path) :
    firstLike? w (before ++ [e]) p = some first := by
  unfold firstLike? at found ⊢
  rw [List.find?_append, found, Option.some_or]

theorem climbs_concat : Climbs w (before ++ [p]) ↔ Climbs w before ∧ Joins w before p := by
  constructor
  · intro climbs
    refine ⟨fun q hq first found => ?_, ?_⟩
    · exact climbs q (List.mem_append_left _ hq) first (firstLike?_concat found p)
    · by_cases alike : ∃ q ∈ before, (start w q).isRooted = (start w p).isRooted
      · obtain ⟨q, hq, same⟩ := alike
        obtain ⟨first, member, found⟩ := exists_firstLike? hq same
        exact .inl ⟨first, member, climbs p List.mem_concat_self first (firstLike?_concat found p)⟩
      · exact .inr fun q hq same => alike ⟨q, hq, same⟩
  · rintro ⟨climbs, joins⟩ q hq first found
    rcases List.mem_append.1 hq with hq | hq
    · obtain ⟨first', -, found'⟩ := exists_firstLike? hq (p := q) rfl
      cases found.symm.trans (firstLike?_concat found' p)
      exact climbs q hq first found'
    · cases List.mem_singleton.1 hq
      rcases joins with ⟨q, hq, higher⟩ | other
      · obtain ⟨first', -, found'⟩ := exists_firstLike? hq higher.rooted.symm
        cases found.symm.trans (firstLike?_concat found' p)
        have same : firstLike? w before q = some first := by
          unfold firstLike? at found' ⊢
          rwa [← higher.rooted]
        exact higher.trans (climbs q hq first same)
      · have none : firstLike? w before p = none := List.find?_eq_none.2 (by simpa using other)
        unfold firstLike? at none found
        rw [List.find?_append, none, Option.none_or, List.find?_singleton,
          if_pos (beq_self_eq_true _)] at found
        cases found
        exact .refl _

theorem nearestFirst_iff : NearestFirst (searched w inputs) ↔ Climbs w inputs := by
  induction inputs using List.reverseRecOn with
  | nil => exact iff_of_true List.Pairwise.nil fun p hp => absurd hp List.not_mem_nil
  | append_singleton before p ih => rw [nearestFirst_concat, climbs_concat, ih]

/-- Where the nearer directory comes first, a file that is found lies in a directory below which none of the
directories that are searched has one. -/
theorem isNearest_of_findSome? {f : Path} (order : NearestFirst ds)
    (found : ds.findSome? (fileIn? w) = some f) : IsNearest w ds f := by
  obtain ⟨passed, d, rest, rfl, here, none⟩ := List.findSome?_eq_some_iff.1 found
  refine ⟨d, List.mem_append_right _ List.mem_cons_self, here, fun b hb above => ?_⟩
  rcases List.mem_append.1 hb with hb | hb
  · exact none b hb
  · rcases List.mem_cons.1 hb with rfl | hb
    · exact absurd above.1 above.not_isOver
    · have later := (List.pairwise_cons.1 (List.pairwise_append.1 order).2.1).1 b hb
      exact absurd above later

/-- Searched are the directories of the inputs and all that lie above these, none of them twice. The nearer
directory comes first exactly if every input climbs from where the first of its kind began; then no file is
read while a directory below its own has another one, and the user's file only if there is none at all. -/
theorem search_order (w : Workspace) (inputs : List Path) :
    (searched w inputs).Pairwise (fun a b => ¬ a.isSame b = true) ∧
      (∀ a, Lists (searched w inputs) a ↔ ∃ p ∈ inputs, a.IsOver (start w p)) ∧
      (NearestFirst (searched w inputs) ↔ Climbs w inputs) ∧
      (Climbs w inputs → ∀ user f, file? w user inputs none = .ok (some f) →
        IsNearest w (searched w inputs) f ∨
          user = some f ∧ ∀ d ∈ searched w inputs, fileIn? w d = none) := by
  refine ⟨distinct_pairwise _, fun _ => lists_searched_iff, nearestFirst_iff,
    fun climbs user f found => ?_⟩
  rcases Option.or_eq_some_iff.1 (Except.ok.inj found) with near | ⟨none, own⟩
  · exact .inl (isNearest_of_findSome? (nearestFirst_iff.2 climbs) near)
  · exact .inr ⟨(Option.filter_eq_some_iff.1 own).1, List.findSome?_eq_none_iff.1 none⟩

/-- A directory and one in it, both with settings of their own. -/
def nested : Workspace where
  tree := .directory [("p".toList, .directory
    [("embedded-sqlfmt.toml".toList, .file "indent = 2\n".toUTF8), ("x.py".toList, .file "".toUTF8),
      ("pkg".toList, .directory
        [("embedded-sqlfmt.toml".toList, .file "indent = 8\n".toUTF8), ("y.py".toList, .file "".toUTF8)])])]
  directory := ["p".toList]

/-- Of these files the second one lies deeper. -/
def deepening : List Path := ["x.py", "pkg/y.py"].map Path.ofString

theorem search_order_climbing :
    IsNearest nested (searched nested deepening.reverse) (ofString "/p/pkg/embedded-sqlfmt.toml") ∧
      load nested none deepening.reverse none = .ok { config := { indent := 8 } } := by
  have found : file? nested none deepening.reverse none =
      .ok (some (ofString "/p/pkg/embedded-sqlfmt.toml")) := by decide +kernel
  obtain ⟨-, -, -, nearest⟩ := search_order nested deepening.reverse
  rcases nearest (by decide +kernel) none _ found with near | ⟨own, -⟩
  · exact ⟨near, by decide +kernel⟩
  · cases own

/-- The directory of the first file and all above it are searched before the one in it, so that the settings
of the outer one hold for both files. -/
theorem search_order_deepening :
    (searched nested deepening).map Path.toString = ["/p", "/", "/p/pkg"] ∧
      ¬ NearestFirst (searched nested deepening) ∧
      fileIn? nested (ofString "/p/pkg") = some (ofString "/p/pkg/embedded-sqlfmt.toml") ∧
      file? nested none deepening none = .ok (some (ofString "/p/embedded-sqlfmt.toml")) ∧
      load nested none deepening none = .ok { config := { indent := 2 } } := by
  decide +kernel

end
end Settings
end HostSql
