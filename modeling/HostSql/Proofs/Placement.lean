import HostSql.Proofs.Layout.Lines
import HostSql.Proofs.Replacement
import HostSql.Proofs.Text.Respaced

/-! Where formatted lines are put. Lines that end with characters are kept as they are, so the text
that is put in place has blanks for the line breaks of the formatted text. Which delimiter holds it
does not depend on the place; its line breaks and its indentation do. -/
namespace HostSql
open Text (Rebroken Ended)
open Layout (Line)

namespace Quote
variable {q : Quote} {b : Char} {t x g : Text}

theorem encloses_blank_iff (hq : q.isTriple = true) (hb : isBlank b = true) :
    q.Encloses (b :: t) ↔ q.Encloses t := by
  constructor
  · intro h
    cases h with
    | escaped => exact absurd hb (by decide)
    | cons _ _ _ more => exact more
  · intro h
    refine .cons ?_ (by simp [hq]) ?_ h
    · rintro rfl
      exact absurd hb (by decide)
    · rw [delimiter_triple hq, Text.strip?, if_neg]
      rintro rfl
      have quote := q.isQuote_char
      rcases isQuote_iff.1 quote with h | h <;> rw [h] at hb <;> exact absurd hb (by decide)

theorem encloses_blanks_iff (hq : q.isTriple = true) (hg : ∀ c ∈ g, isBlank c = true) :
    q.Encloses (g ++ t) ↔ q.Encloses t := by
  induction g with
  | nil => rfl
  | cons b g ih =>
    rw [List.cons_append, encloses_blank_iff hq (hg b List.mem_cons_self),
      ih fun c hc => hg c (List.mem_cons_of_mem _ hc)]

/-- A beginning without blanks that is followed by the delimiter in one text is so in the other. -/
theorem strip?_rebroken {w z : Text} (hw : ∀ c ∈ w, isBlank c = false) (h : Rebroken t x) :
    Text.strip? w (t ++ z) = none ↔ Text.strip? w (x ++ z) = none := by
  induction h generalizing w with
  | nil => rfl
  | @char c t x line more ih =>
    cases w with
    | nil => simp [Text.strip?]
    | cons d w =>
      rw [List.cons_append, List.cons_append, Text.strip?, Text.strip?]
      split
      · exact ih fun e he => hw e (List.mem_cons_of_mem _ he)
      · rfl
  | @newline g t x blank filled more ih =>
    cases w with
    | nil => simp [Text.strip?]
    | cons d w =>
      obtain ⟨b, g, rfl⟩ := List.exists_cons_of_ne_nil filled
      have solid := hw d List.mem_cons_self
      have line : d ≠ '\n' := by
        rintro rfl
        exact absurd solid (by decide)
      have other : d ≠ b := by
        rintro rfl
        rw [blank d List.mem_cons_self] at solid
        cases solid
      simp only [List.cons_append, Text.strip?, if_neg line, if_neg other]

theorem strip?_delimiter_rebroken {c : Char} (h : Rebroken t x) :
    Text.strip? q.delimiter (c :: (t ++ q.delimiter)) = none ↔
      Text.strip? q.delimiter (c :: (x ++ q.delimiter)) = none := by
  obtain ⟨more, hq⟩ := q.delimiter_eq_cons
  have solid : ∀ c ∈ q.delimiter, isBlank c = false := by
    intro c hc
    rw [List.eq_of_mem_replicate hc]
    cases q <;> rfl
  rw [hq, Text.strip?, Text.strip?]
  split
  · exact strip?_rebroken (fun c hc => solid c (hq ▸ List.mem_cons_of_mem _ hc)) h
  · rfl

theorem Encloses.rebroken (ht : q.Encloses t) (hq : q.isTriple = true) (h : Rebroken t x) :
    q.Encloses x := by
  induction ht generalizing x with
  | nil => cases h; exact .nil
  | escaped e more ih =>
    cases h with
    | char _ h =>
      cases h with
      | char _ h => exact .escaped e (ih h)
      | @newline g _ x blank filled h =>
        obtain ⟨b, g, rfl⟩ := List.exists_cons_of_ne_nil filled
        refine .escaped b ((encloses_blanks_iff hq fun c hc => ?_).2 (ih h))
        exact blank c (List.mem_cons_of_mem _ hc)
  | cons escape _ goesOn more ih =>
    cases h with
    | char line h =>
      exact .cons escape (by simp [hq]) ((strip?_delimiter_rebroken h).1 goesOn) (ih h)
    | newline blank _ h => exact (encloses_blanks_iff hq blank).2 (ih h)

theorem Encloses.of_rebroken (hx : q.Encloses x) (hq : q.isTriple = true) (h : Rebroken t x) :
    q.Encloses t := by
  -- Blanks that stand for a line break are read one by one, so some of them may be left.
  have rest {b : Char} {g t y : Text} (h : Rebroken t y) (blank : ∀ c ∈ b :: g, isBlank c = true)
      (ih : ∀ {t}, Rebroken t (g ++ y) → q.Encloses t) : q.Encloses t := by
    have blank' : ∀ c ∈ g, isBlank c = true := fun c hc => blank c (List.mem_cons_of_mem _ hc)
    cases g with
    | nil => exact ih h
    | cons d g =>
      exact (encloses_blank_iff hq (by decide)).1 (ih (.newline blank' (by simp) h))
  induction hx generalizing t with
  | nil => exact h.eq_nil ▸ .nil
  | escaped e more ih =>
    rcases h.cons_cases with ⟨u, rfl, -, h⟩ | ⟨g, u, y, rfl, -, blank, -⟩
    · rcases h.cons_cases with ⟨u, rfl, -, h⟩ | ⟨g, u, y, rfl, rfl, blank, h⟩
      · exact .escaped e (ih h)
      · exact .escaped '\n' (rest h blank ih)
    · exact absurd (blank '\\' List.mem_cons_self) (by decide)
  | cons escape _ goesOn more ih =>
    rcases h.cons_cases with ⟨u, rfl, -, h⟩ | ⟨g, u, y, rfl, rfl, blank, h⟩
    · exact .cons escape (by simp [hq]) ((strip?_delimiter_rebroken h).2 goesOn) (ih h)
    · exact (encloses_blank_iff hq (by decide)).2 (rest h blank ih)

/-- Between triple delimiters it makes no difference which blanks stand for a line break. -/
theorem encloses_rebroken (hq : q.isTriple = true) (h : Rebroken t x) :
    q.Encloses t ↔ q.Encloses x :=
  ⟨fun ht => ht.rebroken hq h, fun hx => hx.of_rebroken hq h⟩

end Quote

namespace Replacement

section Lines
variable {d : Dialect} {masked sql t : Text} {ls shape : List Line}

theorem trimEnd_of_ended (h : Ended t) : t.trimEnd = t := by
  obtain ⟨c, last, hc⟩ := h
  obtain ⟨u, rfl⟩ := List.getLast?_eq_some_iff.1 last
  simp [Text.trimEnd, Text.dropTrailing, hc]

theorem not_blank_of_ended (h : Ended t) : t.isBlankLine = false := by
  obtain ⟨c, last, hc⟩ := h
  exact Text.isBlankLine_eq_false hc (List.mem_of_getLast? last)

theorem settle_of_ended (h : ∀ l ∈ ls, Ended l.text) : settle ls = ls := by
  induction ls with
  | nil => rfl
  | cons l ls ih =>
    obtain ⟨l', hs, continued, text, -⟩ := settle_cons l ls
    rw [hs, ih fun x hx => h x (List.mem_cons_of_mem _ hx)]
    rw [trimEnd_of_ended (h l List.mem_cons_self), or_self] at text
    cases l
    cases l'
    simp_all

theorem length_linesFrom (inside : List Nat) (n : Nat) (ts : List Text) :
    (Layout.linesFrom inside n ts).length = ts.length := by
  induction ts generalizing n with
  | nil => rfl
  | cons t ts ih => rw [Layout.linesFrom, List.length_cons, List.length_cons, ih]

theorem length_splitLines (h : Layout.splitLines d t = some shape) :
    shape.length = t.lines.length := by
  obtain ⟨tokens, -, rfl⟩ := Option.map_eq_some_iff.1 h
  exact length_linesFrom _ _ _

/-- The unmasked text has as many line breaks as the formatted one. -/
theorem count_of_sqlLines (h : sqlLines d masked sql = some ls) :
    sql.count '\n' = masked.count '\n' := by
  obtain ⟨shape, hs, same, -⟩ := exists_shape_of_sqlLines h
  rw [List.length_map, length_splitLines hs, Text.length_lines, Text.length_lines] at same
  omega

/-- The lines are those of the unmasked text, a final one that holds nothing excepted. -/
theorem exists_lines_of_sqlLines (h : sqlLines d masked sql = some ls) :
    ∃ all : List Line, all.map (·.text) = sql.lines ∧ ls = withoutEmptyLast all := by
  obtain ⟨shape, -, same, rfl⟩ := exists_shape_of_sqlLines h
  exact ⟨_, Layout.map_text_zipWith same, rfl⟩

/-- Lines that end with characters are taken over. -/
theorem sqlLines_text (tidy : Text.tidyFrom false sql = true)
    (h : sqlLines d masked sql = some ls) : ls.map (·.text) = sql.lines := by
  obtain ⟨all, texts, rfl⟩ := exists_lines_of_sqlLines h
  have kept : withoutEmptyLast all = all := by
    unfold withoutEmptyLast
    split
    · next l last =>
      have ended : Ended l.text := Text.ended_of_tidy tidy (by
        rw [← texts]
        exact List.mem_map_of_mem (List.mem_of_getLast? last))
      obtain ⟨c, hc, -⟩ := ended
      have filled : l.text.isEmpty = false := by
        cases ht : l.text with
        | nil => rw [ht] at hc; cases hc
        | cons => rfl
      rw [filled]
      rfl
    · rfl
  rw [kept, texts]

theorem ended_of_sqlLines (tidy : Text.tidyFrom false sql = true)
    (h : sqlLines d masked sql = some ls) : ∀ l ∈ ls, Ended l.text := by
  intro l hl
  refine Text.ended_of_tidy tidy ?_
  rw [← sqlLines_text tidy h]
  exact List.mem_map_of_mem hl

end Lines

section Layout
variable {newline newline' base base' sql : Text} {put : Line → Text} {ls : List Line}

theorem IsBreak.blank (h : IsBreak newline) : newline ≠ [] ∧ ∀ c ∈ newline, isBlank c = true := by
  rcases h with rfl | rfl <;> refine ⟨by simp, List.all_eq_true.1 (by decide)⟩

/-- Joined lines are the text with blanks for its line breaks, behind what is put before the first
line. -/
theorem rebroken_joinLines (hb : IsBreak newline)
    (hput : ∀ l, ∃ g, put l = g ++ l.text ∧ ∀ c ∈ g, isBlank c = true)
    (h : ls.map (·.text) = sql.lines) :
    ∃ g x, joinLines newline put ls = g ++ x ∧ (∀ c ∈ g, isBlank c = true) ∧ Rebroken sql x := by
  induction ls generalizing sql with
  | nil => exact absurd h.symm (Text.lines_ne_nil sql)
  | cons l ls ih =>
    obtain ⟨g, hg, blank⟩ := hput l
    rcases Text.lines_cases sql with ⟨one, plain⟩ | ⟨first, u, plain, rfl, more⟩
    · rw [one, List.map_cons] at h
      obtain ⟨rfl, none⟩ := List.cons.inj h
      rw [List.map_eq_nil_iff.1 none]
      exact ⟨g, l.text, by simp [joinLines, hg], blank, .of_not_mem plain⟩
    · rw [more, List.map_cons] at h
      obtain ⟨rfl, rest⟩ := List.cons.inj h
      obtain ⟨g', x, joined, blank', rebroken⟩ := ih rest
      cases ls with
      | nil => exact absurd rest.symm (Text.lines_ne_nil u)
      | cons next more =>
        obtain ⟨some, sep⟩ := (separator_cases hb next).blank
        refine ⟨g, l.text ++ ((separator newline next ++ g') ++ x), ?_, blank, ?_⟩
        · rw [joinLines_cons, hg, joined]
          simp
        · refine (Rebroken.of_not_mem plain).append (.newline (fun c hc => ?_) (by simp [some]) rebroken)
          rcases List.mem_append.1 hc with hc | hc
          · exact sep c hc
          · exact blank' c hc

theorem exists_padded (pad : Text) (l : Line) : ∃ g, padded pad l = g ++ l.text ∧ ∀ c ∈ g, c ∈ pad := by
  unfold padded
  split
  · exact ⟨pad, rfl, fun _ hc => hc⟩
  · exact ⟨[], rfl, nofun⟩

/-- Under a line that is indented, lines are padded with blanks. -/
theorem blank_padded {c : Config} (hbase : ∀ x ∈ base, isBlank x = true) (l : Line) :
    ∃ g, padded (base ++ List.replicate c.indent ' ') l = g ++ l.text ∧ ∀ x ∈ g, isBlank x = true := by
  obtain ⟨g, put, among⟩ := exists_padded (base ++ List.replicate c.indent ' ') l
  refine ⟨g, put, fun x hx => ?_⟩
  rcases List.mem_append.1 (among x hx) with hx | hx
  · exact hbase x hx
  · rw [List.eq_of_mem_replicate hx]
    decide

theorem rebroken_layout {c : Config} (hb : IsBreak newline) (hbase : ∀ c ∈ base, isBlank c = true)
    (h : ls.map (·.text) = sql.lines) :
    ∃ g x g', layout c newline base ls = g ++ (x ++ g') ∧ (∀ c ∈ g, isBlank c = true) ∧
      (∀ c ∈ g', isBlank c = true) ∧ g' ≠ [] ∧ Rebroken sql x := by
  obtain ⟨some, blank⟩ := hb.blank
  obtain ⟨g, x, joined, blank', rebroken⟩ := rebroken_joinLines hb (blank_padded (c := c) hbase) h
  refine ⟨newline ++ g, x, newline ++ base, by simp [layout, joined], ?_, ?_, by simp [some], rebroken⟩
  · intro d hd
    exact (List.mem_append.1 hd).elim (blank d) (blank' d)
  · intro d hd
    exact (List.mem_append.1 hd).elim (blank d) (hbase d)

/-- Whether a triple delimiter holds the laid out lines can be told from the lines alone. -/
theorem fits_layout {c : Config} {q : Quote} (hq : q.isTriple = true) (hb : IsBreak newline)
    (hbase : ∀ c ∈ base, isBlank c = true) (h : ls.map (·.text) = sql.lines) :
    q.fits (layout c newline base ls) = q.fits (sql ++ ['\n']) := by
  obtain ⟨g, x, g', whole, blank, blank', some, rebroken⟩ := rebroken_layout (c := c) hb hbase h
  have tail : Rebroken ['\n'] (g' ++ []) := .newline blank' some .nil
  rw [List.append_nil] at tail
  have same : q.Encloses (sql ++ ['\n']) ↔ q.Encloses (x ++ g') :=
    Quote.encloses_rebroken hq (rebroken.append tail)
  rw [Bool.eq_iff_iff, Quote.fits_iff, Quote.fits_iff, same, whole,
    Quote.encloses_blanks_iff hq blank]

/-- What is laid out shows the line break and the indentation. -/
theorem layout_inj {c : Config} {ls ls' : List Line} (hb : IsBreak newline) (hb' : IsBreak newline')
    (plain : '\n' ∉ base) (plain' : '\n' ∉ base')
    (h : layout c newline base ls = layout c newline' base' ls') :
    newline = newline' ∧ base = base' := by
  have break' : newline = newline' := by
    have first := congrArg List.head? h
    rcases hb with rfl | rfl <;> rcases hb' with rfl | rfl <;> simp_all [layout]
  refine ⟨break', ?_⟩
  have ends {n : Text} (hn : IsBreak n) : ∃ z, n = z ++ ['\n'] := by
    rcases hn with rfl | rfl
    · exact ⟨[], rfl⟩
    · exact ⟨['\r'], rfl⟩
  have last {n b : Text} {ls : List Line} (hn : IsBreak n) (hb : '\n' ∉ b) :
      (layout c n b ls).lines.getLast? = some b := by
    obtain ⟨z, hz⟩ := ends hn
    have shape : layout c n b ls =
        (n ++ joinLines n (padded (b ++ List.replicate c.indent ' ')) ls ++ z) ++ '\n' :: b := by
      have cut (u : Text) : u ++ n ++ b = (u ++ z) ++ '\n' :: b := by simp [hz]
      exact cut _
    rw [shape, Text.lines_append, Text.lines_eq_singleton hb, List.getLast?_concat]
  have one := congrArg (·.lines.getLast?) h
  rw [last hb plain, last hb' plain'] at one
  exact Option.some.inj one

end Layout

section Place
variable {c : Config} {buffer masked sql newline newline' : Text} {f : Fragment} {q q' : Quote}
  {ls : List Line}

theorem isIndent_lineIndent {buffer : Text} {n : Nat} : ∀ x ∈ lineIndent buffer n, isIndent x = true :=
  List.all_eq_true.1 List.all_takeWhile

theorem blank_lineIndent {buffer : Text} {n : Nat} : ∀ x ∈ lineIndent buffer n, isBlank x = true :=
  fun x hx => isBlank_of_isIndent (isIndent_lineIndent x hx)

theorem newline_lineIndent {buffer : Text} {n : Nat} : '\n' ∉ lineIndent buffer n :=
  fun h => absurd (isIndent_lineIndent _ h) (by decide)

/-- The triple delimiter that was taken is the first one to be tried the next time. -/
theorem triple_again {fits : Quote → Bool}
    (h : [q.toTriple, q.toTriple.swapped].find? fits = some q') :
    q'.isTriple = true ∧ fits q' = true ∧
      [q'.toTriple, q'.toTriple.swapped].find? fits = some q' := by
  have triple : q'.isTriple = true ∧ q'.toTriple = q' := by
    have := List.mem_of_find?_eq_some h
    simp only [List.mem_cons, List.not_mem_nil, or_false] at this
    rcases this with rfl | rfl <;> cases q <;> decide
  have holds := List.find?_some h
  refine ⟨triple.1, holds, ?_⟩
  rw [triple.2]
  exact List.find?_cons_of_pos holds

/-- The triple delimiter that formatted lines get. -/
def holder (q : Quote) (sql : Text) : Option Quote :=
  [q.toTriple, q.toTriple.swapped].find? (·.fits (sql ++ ['\n']))

/-- Formatted text of several lines, whatever its lines end with. -/
theorem delimit_several (hn : '\n' ∈ sql) :
    delimit c buffer f q masked sql =
      match sqlLines (Dialect.ofName c.dialect) masked sql with
      | none => .error .delimiter
      | some ls =>
        let body :=
          layout c (lineBreak buffer f.span.stop) (lineIndent buffer f.span.start) (settle ls)
        match [q.toTriple, q.toTriple.swapped].find? (·.fits body) with
        | some q' => .ok (wrap f.marks q' body)
        | none => .error .delimiter := by
  have several : sql.contains '\n' = true := List.contains_iff_mem.2 hn
  unfold delimit
  rw [several]
  rfl

theorem delimit_lines (hn : '\n' ∈ sql)
    (tidy : ∀ ls, sqlLines (Dialect.ofName c.dialect) masked sql = some ls →
      Text.tidyFrom false sql = true) :
    delimit c buffer f q masked sql =
      match sqlLines (Dialect.ofName c.dialect) masked sql, holder q sql with
      | some ls, some q' =>
        .ok (wrap f.marks q'
          (layout c (lineBreak buffer f.span.stop) (lineIndent buffer f.span.start) ls))
      | _, _ => .error .delimiter := by
  rw [delimit_several hn]
  cases hs : sqlLines (Dialect.ofName c.dialect) masked sql with
  | none => rfl
  | some ls =>
    have tidy := tidy ls hs
    have texts := sqlLines_text tidy hs
    have base : ∀ x ∈ lineIndent buffer f.span.start, isBlank x = true := blank_lineIndent
    have fits {q : Quote} (hq : q.isTriple = true) :=
      fits_layout (c := c) hq (lineBreak_isBreak buffer f.span.stop) base texts
    have found : holder q sql = [q.toTriple, q.toTriple.swapped].find? (·.fits
        (layout c (lineBreak buffer f.span.stop) (lineIndent buffer f.span.start) ls)) := by
      have first : q.toTriple.isTriple = true := by cases q <;> rfl
      have second : q.toTriple.swapped.isTriple = true := by cases q <;> rfl
      simp only [holder, List.find?_cons, List.find?_nil, fits first, fits second]
    dsimp only
    rw [settle_of_ended (ended_of_sqlLines tidy hs), ← found]
    cases holder q sql with
    | none => rfl
    | some => rfl

theorem delimit_line (hn : '\n' ∉ sql) :
    delimit c buffer f q masked sql =
      if q.fits sql then .ok (wrap f.marks q sql) else .error .delimiter := by
  unfold delimit
  simp [hn]

theorem blockLines_lines
    (tidy : ∀ ls, sqlLines (Dialect.ofName c.dialect) masked sql = some ls →
      Text.tidyFrom false sql = true) :
    blockLines c buffer f masked sql =
      match sqlLines (Dialect.ofName c.dialect) masked sql with
      | some ls => .ok (joinLines (lineBreak buffer f.span.start) (·.text) ls)
      | none => .error .delimiter := by
  unfold blockLines
  dsimp only
  cases hs : sqlLines (Dialect.ofName c.dialect) masked sql with
  | none => rfl
  | some ls =>
    have ended := ended_of_sqlLines (tidy ls hs) hs
    have solid : ∀ l ∈ ls, l.text.isBlankLine = false := fun l hl => not_blank_of_ended (ended l hl)
    have none : (ls.any fun l => l.text.isBlankLine && l.continued) = false := by
      rw [List.any_eq_false]
      intro l hl
      simp [solid l hl]
    have all : ls.filter (!·.text.isBlankLine) = ls :=
      List.filter_eq_self.2 fun l hl => by simp [solid l hl]
    dsimp only
    rw [settle_of_ended ended, none, if_neg (by simp), all]

theorem length_flatMap_separator (ls : List Line) :
    (ls.flatMap fun l => separator ['\r', '\n'] l ++ l.text).length =
      (ls.flatMap fun l => separator ['\n'] l ++ l.text).length + ls.countP (!·.continued) := by
  induction ls with
  | nil => rfl
  | cons l ls ih =>
    rw [List.flatMap_cons, List.flatMap_cons, List.length_append, List.length_append, ih,
      List.countP_cons]
    cases hc : l.continued <;> simp [separator, hc] <;> omega

/-- Joined lines show the line break as soon as one of them begins with it. -/
theorem joinLines_eq_iff (hb : IsBreak newline) (hb' : IsBreak newline') :
    joinLines newline (·.text) ls = joinLines newline' (·.text) ls ↔
      ((∃ l ∈ ls.tail, l.continued = false) → newline = newline') := by
  cases ls with
  | nil => simp [joinLines]
  | cons l more =>
    rw [joinLines, joinLines, List.append_cancel_left_eq, List.tail_cons]
    constructor
    · rintro h ⟨l, hl, begins⟩
      have some : 0 < more.countP (!·.continued) := List.countP_pos_iff.2 ⟨l, hl, by simp [begins]⟩
      have longer := length_flatMap_separator more
      rcases hb with rfl | rfl <;> rcases hb' with rfl | rfl
      · rfl
      · rw [h] at longer
        omega
      · rw [h] at longer
        omega
      · rfl
    · intro h
      by_cases begins : ∃ l ∈ more, l.continued = false
      · rw [h begins]
      · rw [List.flatMap_def, List.flatMap_def]
        refine congrArg List.flatten (List.map_congr_left fun l hl => ?_)
        have continued : l.continued = true := by
          cases hc : l.continued with
          | true => rfl
          | false => exact absurd ⟨l, hl, hc⟩ begins
        simp [separator, continued]

/-- Trimmed, joined lines are the lines. -/
theorem map_trim_joinLines (hb : IsBreak newline) (h : ls.map (·.text) = sql.lines) :
    (joinLines newline (·.text) ls).lines.map Text.trim = sql.lines.map Text.trim := by
  have cr : isBlank '\r' = true := by decide
  induction ls generalizing sql with
  | nil => exact absurd h.symm (Text.lines_ne_nil sql)
  | cons l ls ih =>
    have plain : '\n' ∉ l.text := Text.not_mem_of_mem_lines (h ▸ List.mem_map_of_mem List.mem_cons_self)
    cases ls with
    | nil => simp [joinLines, ← h, Text.lines_eq_singleton plain]
    | cons next more =>
      rcases Text.lines_cases sql with ⟨one, -⟩ | ⟨first, u, -, rfl, cut⟩
      · rw [one] at h
        cases h
      · rw [cut] at h ⊢
        obtain ⟨rfl, rest⟩ := List.cons.inj h
        rw [joinLines_cons, List.map_cons, ← ih rest]
        rcases separator_cases hb next with hs | hs <;> rw [hs]
        · rw [List.singleton_append, Text.lines_append_newline plain, List.map_cons]
        · have line : '\n' ∉ l.text ++ ['\r'] := by simp [plain]
          have shape (z : Text) : l.text ++ (['\r', '\n'] ++ z) = (l.text ++ ['\r']) ++ '\n' :: z := by
            simp
          rw [shape, Text.lines_append_newline line, List.map_cons, Text.trim_concat _ cr]

end Place

end Replacement
end HostSql
