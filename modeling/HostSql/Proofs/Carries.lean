import HostSql.Proofs.Layout.Lines
import HostSql.Proofs.Placement
import HostSql.Proofs.Text.Holds

/-! Text over several lines on its way to the place where it is put. Lines are trimmed, dropped, padded and
joined; the words on them stay, and so does a text that stands on a line and on lines that start inside
a token after it, since nothing is put between those. -/
namespace HostSql
open Layout (Line wordsOf)
open Text (Ended)

namespace Replacement
variable {d : Dialect} {masked sql newline t : Text} {l : Line} {ls cs rest : List Line} {put : Line → Text}

/-! ## Words -/

theorem wordsOf_withoutEmptyLast (ls : List Line) : wordsOf (withoutEmptyLast ls) = wordsOf ls := by
  unfold withoutEmptyLast
  split
  · next l last =>
    split
    · next empty =>
      obtain ⟨init, rfl⟩ := List.getLast?_eq_some_iff.1 last
      have nothing : l.text = [] := by
        simp only [Bool.and_eq_true, List.isEmpty_iff] at empty
        exact empty.1
      rw [List.dropLast_concat, Layout.wordsOf_append, Layout.wordsOf_cons, nothing]
      simp [wordsOf, Text.words_blanks]
    · rfl
  · rfl

theorem wordsOf_settle (ls : List Line) : wordsOf (settle ls) = wordsOf ls := by
  induction ls with
  | nil => rfl
  | cons l ls ih =>
    obtain ⟨l', settled, -, text, -⟩ := settle_cons l ls
    rw [settled, Layout.wordsOf_cons, Layout.wordsOf_cons, ih]
    rcases text with same | trimmed
    · rw [same]
    · rw [trimmed, Text.words_trimEnd]

theorem wordsOf_solid (ls : List Line) : wordsOf (solid ls) = wordsOf ls := by
  induction ls with
  | nil => rfl
  | cons l ls ih =>
    rw [Layout.wordsOf_cons, ← ih, solid, List.filter_cons]
    split
    · rfl
    · next blank =>
      rw [Text.words_of_isBlankLine (by simpa using blank)]
      rfl

theorem wordsOf_sqlLines (h : sqlLines d masked sql = some ls) : wordsOf ls = sql.words := by
  obtain ⟨all, texts, rfl⟩ := exists_lines_of_sqlLines h
  rw [wordsOf_withoutEmptyLast, ← Layout.words_ofLines_map, texts, Text.ofLines_lines]

/-- Line breaks and padding are blank. -/
theorem words_joinLines (hb : IsBreak newline)
    (hput : ∀ l, ∃ g, put l = g ++ l.text ∧ ∀ c ∈ g, isBlank c = true) (ls : List Line) :
    (joinLines newline put ls).words = wordsOf ls := by
  have here (l : Line) : (put l).words = l.text.words := by
    obtain ⟨g, same, blank⟩ := hput l
    rw [same, Text.words_blanks_append blank]
  induction ls with
  | nil => rfl
  | cons l ls ih =>
    cases ls with
    | nil => simp [joinLines, here, wordsOf]
    | cons next more =>
      obtain ⟨some, blank⟩ := (separator_cases hb next).blank
      obtain ⟨b, s, hs⟩ := List.exists_cons_of_ne_nil some
      rw [hs] at blank
      obtain ⟨first, others⟩ := List.forall_mem_cons.1 blank
      rw [joinLines_cons, hs, List.cons_append, Text.words_append_blank first, Text.words_blanks_append others,
        ih, here]
      rfl

theorem words_layout {c : Config} {base : Text} (hb : IsBreak newline) (hbase : ∀ x ∈ base, isBlank x = true)
    (ls : List Line) : (layout c newline base ls).words = wordsOf ls := by
  rw [layout, Text.words_append_blanks hbase, Text.words_append_blanks hb.blank.2,
    Text.words_blanks_append hb.blank.2, words_joinLines hb (blank_padded hbase)]

/-! ## Lines inside tokens -/

/-- The text stands on a line that is not blank and on lines after it that start inside a token. -/
def Carries (t : Text) (ls : List Line) : Prop :=
  ∃ before l cs after, ls = before ++ (l :: cs ++ after) ∧ (∀ k ∈ cs, k.continued = true) ∧
    l.text.isBlankLine = false ∧ t <:+: Text.ofLines ((l :: cs).map (·.text))

/-- Lines of a text carry a part of it if those behind the line breaks in the part start inside a token. -/
theorem carries_zipWith {u v : Text} {flags flags' : List Bool} (trimmed : Text.Trimmed t)
    (length : flags.length = u.count '\n') :
    Carries t ((u ++ (t ++ v)).lines.zipWith Line.mk
      (false :: (flags ++ (List.replicate (t.count '\n') true ++ flags')))) := by
  obtain ⟨before, x, y, after, whole, first, last, count⟩ := Text.exists_lines_append u t v
  obtain ⟨l, cs, cut⟩ := List.exists_cons_of_ne_nil (Text.lines_ne_nil (x ++ (t ++ y)))
  have many : cs.length = (List.replicate (t.count '\n') true).length := by
    have lengths := congrArg List.length cut
    rw [Text.length_lines, List.count_append, List.count_append, List.count_eq_zero_of_not_mem first,
      List.count_eq_zero_of_not_mem last, List.length_cons] at lengths
    rw [List.length_replicate]
    omega
  obtain ⟨fs, b, shifted⟩ : ∃ fs b, false :: flags = fs ++ [b] :=
    ⟨_, _, (List.dropLast_concat_getLast (List.cons_ne_nil false flags)).symm⟩
  have front : before.length = fs.length := by
    have lengths := congrArg List.length shifted
    rw [List.length_cons, List.length_append, List.length_singleton] at lengths
    omega
  have moved : false :: (flags ++ (List.replicate (t.count '\n') true ++ flags')) =
      fs ++ (b :: (List.replicate (t.count '\n') true ++ flags')) := by
    rw [← List.cons_append, shifted]
    simp
  refine ⟨before.zipWith Line.mk fs, ⟨l, b⟩, cs.zipWith Line.mk (List.replicate (t.count '\n') true),
    after.zipWith Line.mk flags', ?_, fun k hk => ?_, ?_, ?_⟩
  · rw [whole, cut, moved, List.append_assoc, List.zipWith_append front, List.cons_append,
      List.zipWith_cons_cons, List.zipWith_append many]
    rfl
  · have flag : k.continued ∈ List.replicate (t.count '\n') true := by
      rw [← Layout.map_continued_zipWith many]
      exact List.mem_map_of_mem hk
    exact List.eq_of_mem_replicate flag
  · obtain ⟨c, head, solid⟩ := trimmed.starts
    obtain ⟨z, rfl⟩ := List.head?_eq_some_iff.1 head
    have line : c ≠ '\n' := by
      rintro rfl
      exact absurd solid (by decide)
    have start := Text.head?_lines (x ++ (c :: z ++ y))
    rw [cut, List.head?_cons, Option.some.injEq, List.takeWhile_append_of_pos (Text.ne_newline first),
      List.cons_append, List.takeWhile_cons_of_pos (by simpa using line)] at start
    apply Text.isBlankLine_eq_false solid
    rw [start]
    simp
  · rw [List.map_cons, Layout.map_text_zipWith many, ← cut, Text.ofLines_lines]
    exact ⟨x, y, by simp⟩

/-- A last line that holds nothing is none of these lines. -/
theorem Carries.withoutEmptyLast (h : Carries t ls) : Carries t (withoutEmptyLast ls) := by
  obtain ⟨before, l, cs, after, rfl, continued, filled, inside⟩ := h
  rw [Replacement.withoutEmptyLast]
  split
  · next k last =>
    by_cases empty : (k.text.isEmpty && !k.continued) = true
    · rw [if_pos empty]
      simp only [Bool.and_eq_true, List.isEmpty_iff, Bool.not_eq_true'] at empty
      cases after with
      | nil =>
        rw [List.append_nil, List.getLast?_append_of_ne_nil _ (List.cons_ne_nil l cs)] at last
        rcases List.mem_cons.1 (List.mem_of_getLast? last) with rfl | mem
        · rw [empty.1] at filled
          cases filled
        · rw [continued k mem] at empty
          cases empty.2
      | cons m after =>
        refine ⟨before, l, cs, (m :: after).dropLast, ?_, continued, filled, inside⟩
        rw [List.dropLast_append_of_ne_nil (by simp), List.dropLast_append_of_ne_nil (List.cons_ne_nil m after)]
    · rw [if_neg empty]
      exact ⟨before, l, cs, after, rfl, continued, filled, inside⟩
  · exact ⟨before, l, cs, after, rfl, continued, filled, inside⟩

theorem exists_settle_append (before rest : List Line) :
    ∃ before', settle (before ++ rest) = before' ++ settle rest := by
  induction before with
  | nil => exact ⟨[], rfl⟩
  | cons l before ih =>
    obtain ⟨before', settled⟩ := ih
    obtain ⟨l', one, -⟩ := settle_cons l (before ++ rest)
    exact ⟨l' :: before', by rw [List.cons_append, one, settled, List.cons_append]⟩

/-- Of lines that start inside a token, and the line before them, only the last one is trimmed. -/
theorem exists_settle_carried (l : Line) (continued : ∀ k ∈ cs, k.continued = true) (after : List Line) :
    ∃ l' cs' g, settle (l :: cs ++ after) = l' :: cs' ++ settle after ∧ l'.continued = l.continued ∧
      (∀ k ∈ cs', k.continued = true) ∧ l'.text.isBlankLine = l.text.isBlankLine ∧
      (∀ c ∈ g, isBlank c = true) ∧
      Text.ofLines ((l :: cs).map (·.text)) = Text.ofLines ((l' :: cs').map (·.text)) ++ g := by
  induction cs generalizing l with
  | nil =>
    obtain ⟨l', settled, same, text, -⟩ := settle_cons l after
    rcases text with text | text
    · exact ⟨l', [], [], settled, same, nofun, by rw [text], nofun, by simp [text]⟩
    · obtain ⟨g, whole, blank⟩ := Text.exists_trimEnd l.text
      refine ⟨l', [], g, settled, same, nofun, by rw [text, Text.isBlankLine_trimEnd], blank, ?_⟩
      simp only [List.map_cons, List.map_nil, Text.ofLines_singleton, text]
      exact whole
  | cons k cs ih =>
    obtain ⟨here, others⟩ := List.forall_mem_cons.1 continued
    obtain ⟨k', cs', g, settled, same, continued', -, blank, texts⟩ := ih k others
    refine ⟨l, k' :: cs', g, ?_, rfl, ?_, rfl, blank, ?_⟩
    · rw [List.cons_append, List.cons_append, settle, if_pos here, ← List.cons_append, settled]
      rfl
    · exact List.forall_mem_cons.2 ⟨same.trans here, continued'⟩
    · have behind (m : Line) (ms : List Line) : Text.ofLines ((l :: m :: ms).map (·.text)) =
          l.text ++ '\n' :: Text.ofLines ((m :: ms).map (·.text)) :=
        Text.ofLines_cons (List.cons_ne_nil _ _) l.text
      rw [behind, behind, texts]
      simp

theorem Carries.settle (ended : Ended t) (h : Carries t ls) : Carries t (settle ls) := by
  obtain ⟨before, l, cs, after, rfl, continued, filled, inside⟩ := h
  obtain ⟨before', front⟩ := exists_settle_append before (l :: cs ++ after)
  obtain ⟨l', cs', g, settled, -, continued', blankness, blank, texts⟩ :=
    exists_settle_carried l continued after
  refine ⟨before', l', cs', Replacement.settle after, ?_, continued', blankness.trans filled, ?_⟩
  · rw [front, settled]
  · rw [texts] at inside
    exact Text.infix_of_append_blanks ended blank inside

/-- Blank lines can be dropped if none of them starts inside a token. -/
theorem Carries.solid (kept : (ls.any fun l => l.text.isBlankLine && l.continued) = false)
    (h : Carries t ls) : Carries t (solid ls) := by
  obtain ⟨before, l, cs, after, rfl, continued, filled, inside⟩ := h
  refine ⟨Replacement.solid before, l, cs, Replacement.solid after, ?_, continued, filled, inside⟩
  have all : ∀ k ∈ l :: cs, (!k.text.isBlankLine) = true := by
    intro k hk
    rcases List.mem_cons.1 hk with rfl | mem
    · rw [filled]
      rfl
    · have one := List.any_eq_false.1 kept k (by simp [mem])
      simpa [continued k mem] using one
  rw [Replacement.solid, List.filter_append, List.filter_append, List.filter_eq_self.2 all]
  rfl

theorem exists_joinLines_append (newline : Text) (put : Line → Text) (before : List Line) (filled : rest ≠ []) :
    ∃ z, joinLines newline put (before ++ rest) = z ++ joinLines newline put rest := by
  induction before with
  | nil => exact ⟨[], rfl⟩
  | cons l before ih =>
    obtain ⟨z, joined⟩ := ih
    obtain ⟨next, more, cut⟩ := List.exists_cons_of_ne_nil (show before ++ rest ≠ [] by simp [filled])
    refine ⟨put l ++ (separator newline next ++ z), ?_⟩
    rw [List.cons_append, cut, joinLines_cons, ← cut, joined]
    simp

/-- Joined lines hold what they carry: no padding and no other line break comes into it. -/
theorem Carries.joinLines (h : Carries t ls) (newline : Text)
    (hput : ∀ l, ∃ g, put l = g ++ l.text) (bare : ∀ l, l.continued = true → put l = l.text) :
    t <:+: joinLines newline put ls := by
  obtain ⟨before, l, cs, after, rfl, continued, -, inside⟩ := h
  obtain ⟨z, joined⟩ := exists_joinLines_append newline put before (show l :: cs ++ after ≠ [] by simp)
  obtain ⟨g, first⟩ := hput l
  have broken : (cs.flatMap fun k => separator newline k ++ put k) = Text.broken (cs.map (·.text)) := by
    rw [Text.broken, List.flatMap_map, List.flatMap_def, List.flatMap_def]
    refine congrArg List.flatten (List.map_congr_left fun k hk => ?_)
    rw [separator, if_pos (continued k hk), bare k (continued k hk)]
    rfl
  have whole : Replacement.joinLines newline put (l :: cs ++ after) =
      g ++ (Text.ofLines ((l :: cs).map (·.text)) ++
        after.flatMap fun k => separator newline k ++ put k) := by
    rw [List.cons_append, Replacement.joinLines, List.flatMap_append, broken, first, List.map_cons,
      Text.ofLines_cons_eq]
    simp
  rw [joined, whole, ← List.append_assoc]
  exact inside.trans ⟨_, _, List.append_assoc _ _ _⟩

theorem Carries.layout (h : Carries t ls) (c : Config) (newline base : Text) :
    t <:+: layout c newline base ls := by
  have joined := h.joinLines newline
    (fun l => (exists_padded (base ++ List.replicate c.indent ' ') l).imp fun _ put => put.1)
    fun l continued => by simp [padded, continued]
  exact ((joined.trans (List.suffix_append _ _).isInfix).trans (List.prefix_append _ _).isInfix).trans
    (List.prefix_append _ _).isInfix

end Replacement
end HostSql
