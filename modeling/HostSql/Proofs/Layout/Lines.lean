import HostSql.Proofs.Layout.Tokens
import HostSql.Proofs.Text.Lines

/-! Which lines start inside a token. The bytes that tokens cover are disjoint, so a line break is looked
at in its own token alone: the line behind it starts inside that token exactly if more of the token
follows. -/
namespace HostSql.Layout
open Sql

/-- For each line break of a text, whether more of the text follows it. -/
def inner : Text → List Bool
  | [] => []
  | c :: t => if c = '\n' then (!t.isEmpty) :: inner t else inner t

/-- Byte positions of the lines that start inside one of the texts, the first of them at byte `n`. -/
def startsInside (n : Nat) : List Text → List Nat
  | [] => []
  | x :: xs => (breaks n x).filter (· < n + x.size) ++ startsInside (n + x.size) xs

/-- The words on lines, one line after the other. -/
def wordsOf (ls : List Line) : List Text := ls.flatMap (Text.words ·.text)

@[simp] theorem wordsOf_cons (l : Line) (ls : List Line) :
    wordsOf (l :: ls) = l.text.words ++ wordsOf ls := rfl

theorem wordsOf_append (ls ms : List Line) : wordsOf (ls ++ ms) = wordsOf ls ++ wordsOf ms :=
  List.flatMap_append

theorem words_ofLines_map (ls : List Line) : Text.words (Text.ofLines (ls.map (·.text))) = wordsOf ls := by
  rw [Text.words_ofLines, List.flatMap_map]
  rfl

section
variable {d : Dialect} {sql t u v x : Text} {xs ys : List Text} {n m : Nat}

theorem breaks_append (n : Nat) (u v : Text) :
    breaks n (u ++ v) = breaks n u ++ breaks (n + u.size) v := by
  induction u generalizing n with
  | nil => rfl
  | cons c u ih =>
    rw [List.cons_append, breaks, breaks, Text.size_cons, ← Nat.add_assoc]
    split
    · rw [ih, List.cons_append]
    · exact ih _

theorem of_mem_breaks (h : m ∈ breaks n t) : n < m ∧ m ≤ n + Text.size t := by
  induction t generalizing n with
  | nil => cases h
  | cons c t ih =>
    have width := c.utf8Size_pos
    have later (h : m ∈ breaks (n + c.utf8Size) t) : n < m ∧ m ≤ n + (c.utf8Size + Text.size t) := by
      have := ih h
      omega
    rw [breaks] at h
    rw [Text.size_cons]
    split at h
    · rcases List.mem_cons.1 h with rfl | h
      · omega
      · exact later h
    · exact later h

theorem length_inner (t : Text) : (inner t).length = t.count '\n' := by
  induction t with
  | nil => rfl
  | cons c t ih =>
    rw [inner, List.count_cons]
    split
    · next h => simp [h, ih]
    · next h => simp [h, ih]

/-- More follows every line break that does not end the text. -/
theorem inner_append (hv : v ≠ []) (u : Text) :
    inner (u ++ v) = List.replicate (u.count '\n') true ++ inner v := by
  induction u with
  | nil => rfl
  | cons c u ih =>
    rw [List.cons_append, inner, ih, List.count_cons]
    split
    · next h => simp [h, hv, List.replicate_succ]
    · next h => simp [h]

/-- More of a text that does not end with a blank follows each of its line breaks. -/
theorem inner_of_ended (h : Text.Ended t) : inner t = List.replicate (t.count '\n') true := by
  obtain ⟨c, last, solid⟩ := h
  obtain ⟨u, rfl⟩ := List.getLast?_eq_some_iff.1 last
  have line : c ≠ '\n' := by
    rintro rfl
    exact absurd solid (by decide)
  rw [inner_append (List.cons_ne_nil c []), List.count_append]
  simp [inner, line]

theorem map_breaks (n : Nat) (t : Text) :
    (breaks n t).map (fun m => decide (m < n + t.size)) = inner t := by
  induction t generalizing n with
  | nil => rfl
  | cons c t ih =>
    have rest : (breaks (n + c.utf8Size) t).map (fun m => decide (m < n + Text.size (c :: t))) =
        inner t := by
      rw [Text.size_cons, ← Nat.add_assoc]
      exact ih _
    rw [breaks, inner]
    split
    · have more : decide (n + c.utf8Size < n + Text.size (c :: t)) = !t.isEmpty := by
        cases t with
        | nil => simp
        | cons e t =>
          have := e.utf8Size_pos
          rw [List.isEmpty_cons, Bool.not_false, decide_eq_true_eq, Text.size_cons, Text.size_cons]
          omega
      rw [List.map_cons, more, rest]
    · exact rest

theorem insideStarts_spansFrom (u : Text) (xs : List Text) :
    insideStarts (u ++ xs.flatten) (spansFrom u.size xs) = startsInside u.size xs := by
  induction xs generalizing u with
  | nil => rfl
  | cons x xs ih =>
    have rest := ih (u ++ x)
    rw [List.append_assoc, Text.size_append] at rest
    have own : (u ++ (x :: xs).flatten).slice ⟨u.size, u.size + x.size⟩ = x := by
      rw [List.flatten_cons]
      exact Text.slice_between u x xs.flatten
    rw [spansFrom, insideStarts, List.flatMap_cons, own, startsInside]
    exact congrArg _ rest

theorem lt_of_mem_startsInside (h : m ∈ startsInside n xs) : n < m := by
  induction xs generalizing n with
  | nil => cases h
  | cons x xs ih =>
    rw [startsInside] at h
    rcases List.mem_append.1 h with h | h
    · exact (of_mem_breaks (List.mem_filter.1 h).1).1
    · have := ih h
      omega

/-- A line break is looked at in its own text. -/
theorem map_startsInside (n : Nat) (xs : List Text) :
    (breaks n xs.flatten).map (startsInside n xs).contains = xs.flatMap inner := by
  induction xs generalizing n with
  | nil => rfl
  | cons x xs ih =>
    rw [List.flatten_cons, breaks_append, List.map_append, List.flatMap_cons, startsInside]
    congr 1
    · rw [← map_breaks n x]
      refine List.map_congr_left fun m hm => ?_
      have bounds := of_mem_breaks hm
      have later : m ∉ startsInside (n + x.size) xs := by
        intro h
        have := lt_of_mem_startsInside h
        omega
      rw [Bool.eq_iff_iff]
      simp [later, hm]
    · rw [← ih]
      refine List.map_congr_left fun m hm => ?_
      have bounds := of_mem_breaks hm
      have earlier : m ∉ (breaks n x).filter (· < n + x.size) := by
        intro h
        have := List.mem_filter.1 h
        simp only [decide_eq_true_eq] at this
        omega
      rw [Bool.eq_iff_iff]
      simp only [List.contains_iff_mem, List.mem_append, earlier, false_or]

/-- The lines of a text start at its beginning and behind its line breaks. -/
theorem linesFrom_lines (inside : List Nat) (n : Nat) (t : Text) :
    linesFrom inside n t.lines = t.lines.zipWith Line.mk ((n :: breaks n t).map inside.contains) := by
  have shift (l : Text) (h : '\n' ∉ l) (n : Nat) : breaks n l = [] := by
    have count := congrArg List.length (map_breaks n l)
    rw [List.length_map, length_inner, List.count_eq_zero_of_not_mem h] at count
    exact List.length_eq_zero_iff.1 count
  rcases Text.lines_cases t with ⟨one, oneLine⟩ | ⟨l, u, oneLine, rfl, more⟩
  · rw [one, shift t oneLine]
    rfl
  · have later := linesFrom_lines inside (n + l.size + 1) u
    have next : breaks n (l ++ '\n' :: u) = (n + l.size + 1) :: breaks (n + l.size + 1) u := by
      rw [breaks_append, shift l oneLine, List.nil_append]
      rfl
    rw [more, next, linesFrom, later]
    rfl
termination_by t.length
decreasing_by simp_all; omega

/-- The lines of texts that stand one behind the other, each with what its line break says. -/
theorem linesWith_flatten (xs : List Text) :
    linesWith xs.flatten (spansFrom 0 xs) =
      (Text.lines xs.flatten).zipWith Line.mk (false :: xs.flatMap inner) := by
  have starts : insideStarts xs.flatten (spansFrom 0 xs) = startsInside 0 xs :=
    insideStarts_spansFrom [] xs
  have front : (startsInside 0 xs).contains 0 = false := by
    rw [Bool.eq_false_iff]
    intro h
    exact absurd (lt_of_mem_startsInside (List.contains_iff_mem.1 h)) (by omega)
  rw [linesWith, linesFrom_lines, starts, List.map_cons, front, map_startsInside]

theorem length_flatMap_inner (xs : List Text) : (xs.flatMap inner).length = xs.flatten.count '\n' := by
  induction xs with
  | nil => rfl
  | cons x xs ih =>
    rw [List.flatMap_cons, List.length_append, ih, length_inner, List.flatten_cons, List.count_append]

theorem map_text_zipWith {ls : List Text} {bs : List Bool} (h : ls.length = bs.length) :
    (ls.zipWith Line.mk bs).map (·.text) = ls := by
  have first : (ls.zip bs).map Prod.fst = ls := List.map_fst_zip (Nat.le_of_eq h)
  rw [List.zip, List.map_zipWith] at first
  rwa [List.map_zipWith]

theorem map_text_linesWith (xs : List Text) :
    (linesWith xs.flatten (spansFrom 0 xs)).map (·.text) = Text.lines xs.flatten := by
  rw [linesWith_flatten, map_text_zipWith]
  rw [Text.length_lines, List.length_cons, length_flatMap_inner]

theorem map_continued_zipWith {ls : List Text} {bs : List Bool} (h : ls.length = bs.length) :
    (ls.zipWith Line.mk bs).map (·.continued) = bs := by
  have second : (ls.zip bs).map Prod.snd = bs := List.map_snd_zip (Nat.le_of_eq h.symm)
  rw [List.zip, List.map_zipWith] at second
  rwa [List.map_zipWith]

/-- A line break inside one of the texts cuts the lines in two, and the line behind it goes on. -/
theorem exists_linesWith (xs ys : List Text) (a : Text) {b : Text} (hb : b ≠ []) :
    ∃ before c after,
      linesWith (xs ++ (a ++ '\n' :: b) :: ys).flatten (spansFrom 0 (xs ++ (a ++ '\n' :: b) :: ys)) =
        before ++ c :: after ∧ c.continued = true ∧
      before.map (·.text) = Text.lines (xs.flatten ++ a) ∧
      (c :: after).map (·.text) = Text.lines (b ++ ys.flatten) := by
  have cut : (xs ++ (a ++ '\n' :: b) :: ys).flatten = (xs.flatten ++ a) ++ '\n' :: (b ++ ys.flatten) := by
    simp
  have flags : (xs ++ (a ++ '\n' :: b) :: ys).flatMap inner =
      (xs.flatMap inner ++ List.replicate (a.count '\n') true) ++
        true :: (inner b ++ ys.flatMap inner) := by
    have here : inner ('\n' :: b) = true :: inner b := by simp [inner, hb]
    rw [List.flatMap_append, List.flatMap_cons, inner_append (List.cons_ne_nil _ _), here]
    simp
  have same : (Text.lines (xs.flatten ++ a)).length =
      (false :: (xs.flatMap inner ++ List.replicate (a.count '\n') true)).length := by
    rw [Text.length_lines, List.count_append, List.length_cons, List.length_append,
      length_flatMap_inner, List.length_replicate]
  obtain ⟨r, rs, hr⟩ := List.exists_cons_of_ne_nil (Text.lines_ne_nil (b ++ ys.flatten))
  have rest : (r :: rs).length = (true :: (inner b ++ ys.flatMap inner)).length := by
    rw [← hr, Text.length_lines, List.count_append, List.length_cons, List.length_append,
      length_inner, length_flatMap_inner]
  refine ⟨_, ⟨r, true⟩, rs.zipWith Line.mk (inner b ++ ys.flatMap inner), ?_, rfl,
    map_text_zipWith same, ?_⟩
  · rw [linesWith_flatten, cut, Text.lines_append, hr, flags, ← List.cons_append,
      List.zipWith_append same]
    rfl
  · rw [hr]
    exact map_text_zipWith rest

end
end HostSql.Layout
