import HostSql.Proofs.Host.Relocation
import HostSql.Replacement

/-! What a replacement is made of: the fragment's own marks around a body that its delimiters enclose,
or lines that hold something, the last of them without blanks at its end. -/
namespace HostSql
open Layout (Line)

section
variable {format : Formatter} {c : Config} {buffer masked sql new newline : Text} {f : Fragment}

/-- A replacement went through every step. -/
theorem replacement_eq_ok_iff :
    replacement format c buffer f = .ok new ↔
      ∃ m formatted sql, Replacement.masked f = some m ∧ format c m.text = .ok formatted ∧
        unmask formatted m.placeholders = some sql ∧
        Replacement.place c buffer f formatted sql = .ok new ∧ new ≠ buffer.slice f.span := by
  unfold replacement
  constructor
  · intro h
    split at h
    · cases h
    next m hm =>
    split at h
    · cases h
    next formatted hf =>
    split at h
    · cases h
    next sql hs =>
    split at h
    · cases h
    next text ht =>
    split at h
    · cases h
    next hne =>
    cases h
    exact ⟨m, formatted, sql, hm, hf, hs, ht, hne⟩
  · rintro ⟨m, formatted, sql, hm, hf, hs, ht, hne⟩
    simp [hm, hf, hs, ht, hne]

namespace Replacement

/-- Lines on lines of their own, indented under the line that the literal starts on. -/
def layout (c : Config) (newline base : Text) (ls : List Line) : Text :=
  newline ++ joinLines newline (padded (base ++ List.replicate c.indent ' ')) ls ++ newline ++ base

/-- Between delimiters that hold it stands one line as it is, or lines that are laid out. -/
theorem delimit_cases {q : Quote} (h : delimit c buffer f q masked sql = .ok new) :
    ∃ (q' : Quote) (body : Text), q'.fits body = true ∧ new = wrap f.marks q' body ∧
      ('\n' ∉ sql ∧ body = sql ∨ '\n' ∈ sql ∧ ∃ ls,
        sqlLines (Dialect.ofName c.dialect) masked sql = some ls ∧
          body = layout c (lineBreak buffer f.span.stop) (lineIndent buffer f.span.start) (settle ls)) := by
  unfold delimit at h
  split at h
  · next single =>
    split at h
    · next fits =>
      cases h
      exact ⟨q, sql, fits, rfl, .inl ⟨by simpa using single, rfl⟩⟩
    · cases h
  · next several =>
    dsimp only at h
    split at h
    · cases h
    next ls lines =>
    split at h
    · next q' found =>
      cases h
      exact ⟨q', _, by simpa using List.find?_some found, rfl, .inr ⟨by simpa using several, ls, lines, rfl⟩⟩
    · cases h

theorem last_literal (b : Text) (v : Literal) : (b ++ v.text).getLast? = some v.quote.char := by
  obtain ⟨more, hq⟩ := v.quote.delimiter_eq_concat
  rw [Literal.text, hq, ← List.append_assoc, ← List.append_assoc, List.getLast?_concat]

theorem char_ne_return (q : Quote) : some q.char ≠ some '\r' := by cases q <;> decide

/-- A line break that lines are joined with. -/
def IsBreak (newline : Text) : Prop := newline = ['\n'] ∨ newline = ['\r', '\n']

theorem isBreak_ite (p : Prop) [Decidable p] :
    IsBreak (if p then ['\r', '\n'] else ['\n']) := by
  split
  · exact .inr rfl
  · exact .inl rfl

theorem lineBreak_isBreak (buffer : Text) (n : Nat) : IsBreak (lineBreak buffer n) := isBreak_ite _

theorem separator_cases (h : IsBreak newline) (l : Line) : IsBreak (separator newline l) := by
  unfold separator
  split
  · exact .inl rfl
  · exact h

/-- Neither settling nor dropping lines touches the line breaks inside of them. -/
theorem settle_cons (l : Line) (ls : List Line) :
    ∃ l', settle (l :: ls) = l' :: settle ls ∧ l'.continued = l.continued ∧
      (l'.text = l.text ∨ l'.text = l.text.trimEnd) ∧
      ((∀ next ∈ ls.head?, next.continued = false) → l'.text = l.text.trimEnd) := by
  cases ls with
  | nil => exact ⟨_, rfl, rfl, .inr rfl, fun _ => rfl⟩
  | cons next more =>
    cases hc : next.continued with
    | true =>
      refine ⟨l, by simp [settle, hc], rfl, .inl rfl, fun h => ?_⟩
      have := h next rfl
      rw [hc] at this
      cases this
    | false => exact ⟨{ l with text := l.text.trimEnd }, by simp [settle, hc], rfl, .inr rfl, fun _ => rfl⟩

theorem mem_settle {l : Line} {ls : List Line} (h : l ∈ settle ls) :
    ∃ l₀ ∈ ls, l.continued = l₀.continued ∧ (l.text = l₀.text ∨ l.text = l₀.text.trimEnd) := by
  induction ls with
  | nil => cases h
  | cons l₀ ls ih =>
    obtain ⟨l', hs, continued, text, -⟩ := settle_cons l₀ ls
    rw [hs] at h
    rcases List.mem_cons.1 h with rfl | h
    · exact ⟨l₀, List.mem_cons_self, continued, text⟩
    · obtain ⟨l₁, hm, rest⟩ := ih h
      exact ⟨l₁, List.mem_cons_of_mem _ hm, rest⟩

/-- The lines of a block that hold something. -/
def solid (ls : List Line) : List Line := ls.filter (!·.text.isBlankLine)

/-- Blanks at the end of a line stay only before a line that goes on inside a token, and no such line
is dropped. So the last line that is kept has none. -/
theorem last_solid {ls : List Line} {l : Line}
    (h : ((settle ls).any fun l => l.text.isBlankLine && l.continued) = false)
    (hl : (solid (settle ls)).getLast? = some l) : ∃ x, l.text = Text.trimEnd x := by
  induction ls with
  | nil => cases hl
  | cons l₀ ls ih =>
    obtain ⟨l', hs, -, -, trimmed⟩ := settle_cons l₀ ls
    rw [hs, List.any_cons, Bool.or_eq_false_iff] at h
    rw [hs, solid, List.filter_cons] at hl
    by_cases rest : solid (settle ls) = []
    · refine ⟨l₀.text, ?_⟩
      have kept : l = l' := by
        rw [solid] at rest
        rw [rest] at hl
        split at hl
        · exact (Option.some.inj hl).symm
        · cases hl
      rw [kept]
      refine trimmed fun next hn => ?_
      cases ls with
      | nil => cases hn
      | cons next' more =>
        cases hn
        obtain ⟨n', hs', continued, -, -⟩ := settle_cons next more
        rw [hs', solid, List.filter_eq_nil_iff] at rest
        have blank := rest n' List.mem_cons_self
        rw [hs', List.any_cons, Bool.or_eq_false_iff] at h
        have := h.2.1
        simp only [Bool.not_eq_true', Bool.not_eq_false] at blank
        rw [blank, Bool.true_and, continued] at this
        exact this
    · refine ih h.2 ?_
      have last : (solid (settle ls)).getLast? ≠ none := by simpa using rest
      split at hl
      · rw [List.getLast?_cons, ← solid] at hl
        cases hg : (solid (settle ls)).getLast? with
        | none => exact absurd hg last
        | some g => simpa [hg] using hl
      · exact hl

theorem joinLines_cons (newline : Text) (put : Line → Text) (l next : Line) (more : List Line) :
    joinLines newline put (l :: next :: more) =
      put l ++ (separator newline next ++ joinLines newline put (next :: more)) := by
  simp [joinLines]

/-- Lines that hold something are still these lines when they are joined, but for a carriage return
before a line break. -/
theorem lines_joinLines {ls : List Line} (hb : IsBreak newline)
    (h : ∀ l ∈ ls, '\n' ∉ l.text ∧ l.text.isBlankLine = false) (hl : ls ≠ []) :
    ∀ y ∈ Text.lines (joinLines newline (·.text) ls), y.isBlankLine = false := by
  induction ls with
  | nil => exact absurd rfl hl
  | cons l ls ih =>
    obtain ⟨plain, solid⟩ := h l List.mem_cons_self
    cases ls with
    | nil =>
      simp only [joinLines, List.flatMap_nil, List.append_nil, Text.lines_eq_singleton plain]
      simpa using solid
    | cons next more =>
      have body := ih (fun x hx => h x (List.mem_cons_of_mem _ hx)) (by simp)
      rw [joinLines_cons newline (·.text) l next more]
      generalize joinLines newline (·.text) (next :: more) = rest at *
      have cut : ∃ first, first.isBlankLine = false ∧
          Text.lines (l.text ++ (separator newline next ++ rest)) = first :: Text.lines rest := by
        rcases separator_cases hb next with hs | hs <;> rw [hs]
        · exact ⟨l.text, solid, Text.lines_append_newline plain rest⟩
        · refine ⟨l.text ++ ['\r'], ?_, ?_⟩
          · rwa [Text.isBlankLine_return]
          · have line : '\n' ∉ l.text ++ ['\r'] := by simp [plain]
            simpa using Text.lines_append_newline line rest
      obtain ⟨first, hf, whole⟩ := cut
      rw [whole]
      exact List.forall_mem_cons.2 ⟨hf, body⟩

/-- Joined lines end like the last one of them. -/
theorem last_joinLines (newline : Text) {ls : List Line} {l : Line} (filled : l.text ≠ [])
    (hl : ls.getLast? = some l) :
    (joinLines newline (·.text) ls).getLast? = l.text.getLast? := by
  induction ls with
  | nil => cases hl
  | cons x ls ih =>
    cases ls with
    | nil =>
      cases hl
      simp [joinLines]
    | cons next more =>
      have behind := ih (by simpa using hl)
      rw [joinLines_cons, List.getLast?_append, List.getLast?_append, behind]
      cases hz : l.text.getLast? with
      | none => exact absurd (List.getLast?_eq_none_iff.1 hz) filled
      | some z => rfl

theorem trimEnd_ends (x : Text) : (Text.trimEnd x).getLast? ≠ some '\r' := by
  rw [Text.trimEnd, Text.dropTrailing, List.getLast?_reverse]
  intro h
  have := List.head?_dropWhile_not isBlank x.reverse
  rw [h] at this
  exact absurd this (by decide)

theorem withoutEmptyLast_subset {ls : List Line} {l : Line} (h : l ∈ withoutEmptyLast ls) : l ∈ ls := by
  unfold withoutEmptyLast at h
  split at h
  · split at h
    · exact (List.dropLast_sublist ls).subset h
    · exact h
  · exact h

/-- Line by line the unmasked text stands in the lines of the formatted one. -/
theorem exists_shape_of_sqlLines {d : Dialect} {ls : List Line} (h : sqlLines d masked sql = some ls) :
    ∃ shape, Layout.splitLines d masked = some shape ∧
      sql.lines.length = (shape.map (·.continued)).length ∧
      ls = withoutEmptyLast (sql.lines.zipWith Line.mk (shape.map (·.continued))) := by
  obtain ⟨shape, hs, h⟩ := Option.bind_eq_some_iff.1 h
  dsimp only at h
  split at h
  · next same =>
    cases h
    exact ⟨shape, hs, by rw [same, List.length_map], by rw [List.zipWith_map_right]⟩
  · cases h

theorem mem_sqlLines {d : Dialect} {ls : List Line} {l : Line} (h : sqlLines d masked sql = some ls)
    (hl : l ∈ ls) : l.text ∈ sql.lines := by
  obtain ⟨shape, -, -, rfl⟩ := exists_shape_of_sqlLines h
  obtain ⟨i, hi, rfl⟩ := List.getElem_of_mem (withoutEmptyLast_subset hl)
  simp

theorem mem_trimEnd {t : Text} {x : Char} (h : x ∈ Text.trimEnd t) : x ∈ t := by
  rw [Text.trimEnd, Text.dropTrailing, List.mem_reverse] at h
  exact List.mem_reverse.1 ((List.dropWhile_suffix isBlank).subset h)

/-- In the place of a block stand the lines that hold something. -/
theorem blockLines_cases (h : blockLines c buffer f masked sql = .ok new) :
    ∃ ls, sqlLines (Dialect.ofName c.dialect) masked sql = some ls ∧
      ((settle ls).any fun l => l.text.isBlankLine && l.continued) = false ∧
      new = joinLines (lineBreak buffer f.span.start) (·.text) (solid (settle ls)) := by
  unfold blockLines at h
  dsimp only at h
  split at h
  · cases h
  next ls lines =>
  split at h
  · cases h
  next whole =>
  cases h
  exact ⟨ls, lines, by simpa using whole, rfl⟩

/-- They are not blank, and no carriage return ends them. -/
theorem blockLines_ok (h : blockLines c buffer f masked sql = .ok new) (hn : new ≠ []) :
    (∀ y ∈ Text.lines new, y.isBlankLine = false) ∧ new.getLast? ≠ some '\r' := by
  obtain ⟨ls, hls, whole, rfl⟩ := blockLines_cases h
  have kept : solid (settle ls) ≠ [] := by
    intro none
    rw [none] at hn
    exact hn rfl
  obtain ⟨last, hlast⟩ : ∃ l, (solid (settle ls)).getLast? = some l :=
    ⟨_, List.getLast?_eq_some_getLast kept⟩
  have filled : ∀ l ∈ solid (settle ls), '\n' ∉ l.text ∧ l.text.isBlankLine = false := by
    intro l hl
    obtain ⟨hm, hs⟩ := List.mem_filter.1 hl
    obtain ⟨l₀, hl₀, -, text⟩ := mem_settle hm
    have plain := Text.not_mem_of_mem_lines (mem_sqlLines hls hl₀)
    refine ⟨?_, by simpa using hs⟩
    rcases text with h | h <;> rw [h]
    · exact plain
    · exact fun hc => plain (mem_trimEnd hc)
  refine ⟨lines_joinLines (lineBreak_isBreak buffer f.span.start) filled kept, ?_⟩
  have some : last.text ≠ [] := by
    intro none
    have solid := (filled last (List.mem_of_getLast? hlast)).2
    rw [none] at solid
    cases solid
  obtain ⟨x, hx⟩ := last_solid whole hlast
  rw [last_joinLines _ some hlast, hx]
  exact trimEnd_ends x

end Replacement
end
end HostSql
