import HostSql.Proofs.Placement
import HostSql.Proofs.Transform

/-! Line feeds behind carriage returns. A text that is put together from pieces of this kind is itself
of this kind, and a pass puts its text together from such pieces: what lies between fragments begins
with no line feed, because a block gives the carriage return at its end back to what follows, and
what is put in place is written with the line break that the buffer has everywhere. -/
namespace HostSql

namespace Text

/-- Every line feed stands behind a carriage return. -/
def IsCrlf (t : Text) : Prop := ∀ u v, t = u ++ '\n' :: v → u.getLast? = some '\r'

section
variable {t u v : Text}

theorem isCrlf_of_not_mem (h : '\n' ∉ t) : IsCrlf t := by
  rintro u v rfl
  simp at h

theorem IsCrlf.append (hu : IsCrlf u) (hv : IsCrlf v) : IsCrlf (u ++ v) := by
  intro x y whole
  rcases List.append_eq_append_iff.1 whole with ⟨w, rfl, behind⟩ | ⟨w, rfl, ahead⟩
  · have last := hv w y behind
    rw [List.getLast?_append, last]
    rfl
  · cases w with
    | nil => exact absurd (hv [] y ahead.symm) nofun
    | cons c w =>
      obtain ⟨rfl, rfl⟩ := List.cons.inj ahead
      exact hu x w rfl

theorem IsCrlf.left (h : IsCrlf (u ++ v)) : IsCrlf u := by
  rintro x y rfl
  exact h x (y ++ v) (by simp)

/-- A line feed inside the second piece has what stands before it in that piece, one at its front has
not. -/
theorem IsCrlf.right (h : IsCrlf (u ++ v)) (front : v.head? ≠ some '\n') : IsCrlf v := by
  rintro x y rfl
  have last := h (u ++ x) y (by simp)
  cases x with
  | nil => exact absurd rfl front
  | cons c x => rwa [List.getLast?_append_of_ne_nil _ (List.cons_ne_nil c x)] at last

/-- A line feed at the front of a later piece shows how the first piece ends. -/
theorem IsCrlf.before (h : IsCrlf (u ++ v)) (front : v.head? = some '\n') : u.getLast? = some '\r' := by
  obtain ⟨w, rfl⟩ := List.head?_eq_some_iff.1 front
  exact h u w rfl

theorem isCrlf_flatMap {α : Type} {f : α → Text} {xs : List α} (h : ∀ x ∈ xs, IsCrlf (f x)) :
    IsCrlf (xs.flatMap f) := by
  induction xs with
  | nil => exact isCrlf_of_not_mem (by simp)
  | cons x xs ih =>
    rw [List.flatMap_cons]
    exact (h x List.mem_cons_self).append (ih fun y hy => h y (List.mem_cons_of_mem _ hy))

theorem isCrlf_break : IsCrlf ['\r', '\n'] := by
  intro u v whole
  match u with
  | [] => cases whole
  | [c] =>
    obtain ⟨rfl, -⟩ := List.cons.inj whole
    rfl
  | c :: d :: u =>
    obtain ⟨-, rest⟩ := List.cons.inj whole
    obtain ⟨-, none⟩ := List.cons.inj rest
    exact absurd none.symm (by simp)

end
end Text

open Text (IsCrlf isCrlf_of_not_mem isCrlf_break)
open Layout (Line)

namespace Replacement

section
variable {c : Config} {buffer masked sql new : Text} {f : Fragment} {q : Quote} {ls : List Line}

/-- Whichever line break is nearest, it is one of a carriage return and a line feed. -/
theorem lineBreak_of_isCrlf (h : IsCrlf buffer) (broken : '\n' ∈ buffer) (n : Nat) :
    lineBreak buffer n = ['\r', '\n'] := by
  have whole := Text.before_append_after buffer n
  unfold lineBreak
  generalize buffer.before n = behind at whole
  generalize buffer.after n = ahead at whole
  subst whole
  by_cases next : '\n' ∈ ahead
  · obtain ⟨lead, rest, rfl, oneLine⟩ := List.eq_append_cons_of_mem next
    have first : (lead ++ '\n' :: rest).takeWhile (· != '\n') = lead :=
      Text.takeWhile_stop (Text.ne_newline oneLine) rfl
    have shorter : lead.length < (lead ++ '\n' :: rest).length := by simp
    have returned := h (behind ++ lead) rest (by simp)
    simp only [first, if_pos shorter, returned, if_true]
  · have last : '\n' ∈ behind.reverse := by simpa [next] using broken
    obtain ⟨z, y, back, oneLine⟩ := List.eq_append_cons_of_mem last
    have front : behind = y.reverse ++ '\n' :: z.reverse := by
      have := congrArg List.reverse back
      simpa using this
    have lead : ahead.takeWhile (· != '\n') = ahead := Text.takeWhile_line next
    have found : behind.reverse.dropWhile (· != '\n') = '\n' :: y := by
      rw [back]
      exact Text.dropWhile_stop (Text.ne_newline oneLine) rfl
    have returned := h y.reverse (z.reverse ++ ahead) (by simp [front])
    rw [List.getLast?_reverse] at returned
    simp only [lead, found, Nat.lt_irrefl, if_false, List.tail_cons, returned, if_true]

/-- None of the lines starts inside a token. -/
def Whole (ls : List Line) : Prop := ∀ l ∈ ls, l.continued = false

theorem isCrlf_joinLines {put : Line → Text} (whole : Whole ls) (oneLine : ∀ l ∈ ls, '\n' ∉ put l) :
    IsCrlf (joinLines ['\r', '\n'] put ls) := by
  cases ls with
  | nil => exact isCrlf_of_not_mem (by simp [joinLines])
  | cons l more =>
    have put {x : Line} (hx : x ∈ l :: more) : IsCrlf (put x) := isCrlf_of_not_mem (oneLine x hx)
    refine (put List.mem_cons_self).append (Text.isCrlf_flatMap fun x hx => ?_)
    have hx := List.mem_cons_of_mem l hx
    rw [separator, whole x hx]
    exact isCrlf_break.append (put hx)

/-- The lines that are put in place start where the formatter's lines start. -/
theorem whole_of_sqlLines {d : Dialect} (h : sqlLines d masked sql = some ls)
    (whole : ∀ shape, Layout.splitLines d masked = some shape → Whole shape) : Whole ls := by
  obtain ⟨shape, hs, same, rfl⟩ := exists_shape_of_sqlLines h
  intro l hl
  have flag : l.continued ∈ (sql.lines.zipWith Line.mk (shape.map (·.continued))).map (·.continued) :=
    List.mem_map_of_mem (withoutEmptyLast_subset hl)
  rw [Layout.map_continued_zipWith same] at flag
  obtain ⟨l', hl', continued⟩ := List.mem_map.1 flag
  exact continued ▸ whole shape hs l' hl'

theorem whole_settle (h : Whole ls) : Whole (settle ls) := by
  intro l hl
  obtain ⟨l₀, hm, same, -⟩ := mem_settle hl
  rw [same]
  exact h l₀ hm

theorem oneLine_settle {d : Dialect} (h : sqlLines d masked sql = some ls) :
    ∀ l ∈ settle ls, '\n' ∉ l.text := by
  intro l hl
  obtain ⟨l₀, hm, -, text⟩ := mem_settle hl
  have plain := Text.not_mem_of_mem_lines (mem_sqlLines h hm)
  rcases text with text | text <;> rw [text]
  · exact plain
  · exact fun hc => plain (mem_trimEnd hc)

theorem isCrlf_wrap (marks : IsCrlf f.marks) {body : Text} (hb : IsCrlf body) :
    IsCrlf (wrap f.marks q body) := by
  have delimiter : IsCrlf q.delimiter := isCrlf_of_not_mem (by cases q <;> decide)
  exact ((marks.append delimiter).append hb).append delimiter

/-- A literal on several lines has the line break of the buffer around its lines and between them. -/
theorem isCrlf_delimit (h : delimit c buffer f q masked sql = .ok new) (crlf : IsCrlf buffer)
    (broken : '\n' ∈ buffer) (marks : IsCrlf f.marks)
    (whole : ∀ shape, Layout.splitLines (Dialect.ofName c.dialect) masked = some shape → Whole shape) :
    IsCrlf new := by
  obtain ⟨q', body, -, rfl, ⟨single, rfl⟩ | ⟨-, ls, hls, rfl⟩⟩ := delimit_cases h
  · exact isCrlf_wrap marks (isCrlf_of_not_mem single)
  · have base : IsCrlf (lineIndent buffer f.span.start) := isCrlf_of_not_mem newline_lineIndent
    rw [layout, lineBreak_of_isCrlf crlf broken]
    refine isCrlf_wrap marks (((isCrlf_break.append ?_).append isCrlf_break).append base)
    refine isCrlf_joinLines (whole_settle (whole_of_sqlLines hls whole)) fun l hl => ?_
    have text := oneLine_settle hls l hl
    have blanks : '\n' ∉ List.replicate c.indent ' ' := by simp
    unfold padded
    split
    · simp [newline_lineIndent, text]
    · exact text

theorem isCrlf_blockLines (h : blockLines c buffer f masked sql = .ok new) (crlf : IsCrlf buffer)
    (broken : '\n' ∈ buffer)
    (whole : ∀ shape, Layout.splitLines (Dialect.ofName c.dialect) masked = some shape → Whole shape) :
    IsCrlf new := by
  obtain ⟨ls, hls, -, rfl⟩ := blockLines_cases h
  rw [lineBreak_of_isCrlf crlf broken]
  apply isCrlf_joinLines
  · intro l hl
    exact whole_settle (whole_of_sqlLines hls whole) l (List.mem_of_mem_filter hl)
  · intro l hl
    exact oneLine_settle hls l (List.mem_of_mem_filter hl)

end
end Replacement

namespace Locator
variable {l : Locator} {f : Fragment} {t : Text}

theorem head?_literal {u : Literal} (sound : u.Sound) : u.text.head? ≠ some '\n' := by
  obtain ⟨more, hq⟩ := u.quote.delimiter_eq_cons
  cases hm : u.marks with
  | nil =>
    rw [Literal.text, hm, hq]
    intro first
    exact u.quote.char_ne_newline (Option.some.inj first)
  | cons c m =>
    have mark := Literal.isMark_of_mem sound.marks (hm ▸ List.mem_cons_self)
    rw [Literal.text, hm]
    intro first
    obtain rfl : c = '\n' := Option.some.inj first
    exact absurd mark (by decide)

theorem head?_lines_continued {x : Text} (h : ∀ y ∈ Text.lines x, l.continuesBlock y = true) :
    x.head? ≠ some '\n' := by
  intro first
  obtain ⟨v, rfl⟩ := List.head?_eq_some_iff.1 first
  have cut : Text.lines ('\n' :: v) = [] :: Text.lines v := Text.lines_append_newline (l := []) (by simp) v
  have empty := h [] (cut ▸ List.mem_cons_self)
  simp [continuesBlock, Text.isBlankLine] at empty

/-- A fragment begins with no line feed, and where one follows it, it does not end with a carriage
return: a literal ends with its quote, and a block leaves the carriage return to its line break. -/
theorem exists_edges (h : f ∈ l.locate t) :
    ∃ b w, t = b ++ (f.text ++ w) ∧ f.span.stop = (b ++ f.text).size ∧ f.text.head? ≠ some '\n' ∧
      (w.head? = some '\n' → (b ++ f.text).getLast? ≠ some '\r') ∧ '\n' ∉ f.marks := by
  obtain ⟨p, b, a, reached, -, finds⟩ := exists_reached h
  have whole := reached.whole
  cases finds with
  | @argument gap w u accepted =>
    obtain ⟨-, -, -, -, -, -, -, sound, -⟩ := argument_eq_ok_iff.1 accepted
    refine ⟨b.reverse ++ (l.callName ++ gap), w, ?_, ?_, head?_literal sound, fun _ => ?_, ?_⟩
    · rw [whole]
      simp
    · simp [Fragment.ofLiteral, Fragment.text, Nat.add_assoc]
    · rw [Fragment.text_ofLiteral, Replacement.last_literal]
      exact Replacement.char_ne_return u.quote
    · intro mem
      exact absurd (Literal.isMark_of_mem sound.marks mem) (by decide)
  | @block ls x tail blank body stop =>
    have sized (y : Text) : Text.size (b.reverse ++ Text.written ls ++ y) =
        Text.size b + Text.size (Text.written ls) + Text.size y := by
      simp [Nat.add_assoc]
    have front := head?_lines_continued (lines_withoutReturn body)
    rcases withoutReturn_cases x with hx | ⟨hx, last⟩
    · refine ⟨b.reverse ++ Text.written ls, '\r' :: tail, ?_, (sized _).symm, front, fun first => ?_,
        List.not_mem_nil⟩
      · rw [whole, Fragment.text_ofBlock]
        conv => lhs; rw [hx]
        simp
      · cases Option.some.inj first
    · refine ⟨b.reverse ++ Text.written ls, tail, ?_, (sized _).symm, front, fun _ => ?_,
        List.not_mem_nil⟩
      · rw [whole, Fragment.text_ofBlock, ← hx]
        simp
      · rw [Fragment.text_ofBlock, ← hx, List.getLast?_append_of_ne_nil _ (ne_nil_of_continues body)]
        exact last

end Locator

namespace Splice
variable {put : Fragment → Text} {u t : Text} {fs : List Fragment}

/-- Around fragments the text stays as it was. So it is put together from pieces of the old text and
from what is put in place. -/
theorem isCrlf_weave (placed : Placed u.size t fs) (crlf : IsCrlf t) (filled : ∀ f ∈ fs, IsCrlf (put f))
    (behind : ∀ f ∈ fs, ((u ++ t).after f.span.stop).head? ≠ some '\n') :
    IsCrlf (weave put (u ++ t) u.size fs) := by
  generalize hn : u.size = n at placed
  induction placed generalizing u with
  | rest =>
    rw [weave, ← hn, Text.after_size]
    exact crlf
  | @next n t f fs gap x span more ih =>
    subst hn
    have whole : u ++ (gap ++ (x ++ t)) = u ++ gap ++ x ++ t := by simp
    have front : t.head? ≠ some '\n' := by
      have := behind f List.mem_cons_self
      rwa [span, ← Text.size_append, ← Text.size_append, whole, Text.after_size] at this
    have rest : IsCrlf t := by
      rw [← List.append_assoc] at crlf
      exact crlf.right front
    have later := ih (u := u ++ gap ++ x) rest (fun g hg => filled g (List.mem_cons_of_mem _ hg))
      (fun g hg => whole ▸ behind g (List.mem_cons_of_mem _ hg)) (by simp [Nat.add_assoc])
    rw [weave_next put span, Text.size_append, Text.size_append]
    exact crlf.left.append ((filled f List.mem_cons_self).append later)

end Splice

open Splice

section
variable {format : Formatter} {c : Config} {buffer : Text}

/-- What stands for a fragment in the end. -/
theorem isCrlf_standing (crlf : IsCrlf buffer) (broken : '\n' ∈ buffer)
    (whole : ∀ text out shape, format c text = .ok out →
      Layout.splitLines (Dialect.ofName c.dialect) out = some shape → Replacement.Whole shape)
    {l : Locator} {f : Fragment} (hf : f ∈ l.locate buffer) : IsCrlf (standing format c buffer f) := by
  obtain ⟨b, w, text, -, front, -, marks⟩ := Locator.exists_edges hf
  unfold standing
  cases hr : replacement format c buffer f with
  | error =>
    dsimp only
    rw [slice_located hf]
    rw [← List.append_assoc] at text
    exact (text ▸ crlf).left.right front
  | ok new =>
    dsimp only
    obtain ⟨m, formatted, sql, -, hformat, -, place, -⟩ := replacement_eq_ok_iff.1 hr
    have whole (shape) := whole m.text formatted shape hformat
    unfold Replacement.place at place
    split at place
    · exact Replacement.isCrlf_delimit place crlf broken (isCrlf_of_not_mem marks) whole
    · cases place
    · exact Replacement.isCrlf_blockLines place crlf broken whole

/-- Where every line feed of a buffer stands behind a carriage return, and there is one, a pass keeps
it so, whatever line breaks the formatter writes, as long as none of its lines starts inside a
token. -/
theorem transform_keeps_line_endings (format : Formatter) (c : Config) (buffer : Text)
    (broken : '\n' ∈ buffer) (crlf : IsCrlf buffer)
    (whole : ∀ text out shape, format c text = .ok out →
      Layout.splitLines (Dialect.ofName c.dialect) out = some shape →
        ∀ l ∈ shape, l.continued = false) :
    IsCrlf (transform format c buffer).text := by
  rcases transform_cases format c buffer with ⟨n, same⟩ | ⟨s, spliced, -, same⟩
  · rw [same]
    exact crlf
  · rw [splice_of_placed format c (fault?_locate _ buffer)] at spliced
    cases spliced
    rw [same]
    refine isCrlf_weave (u := []) (placed_locate _ buffer) crlf ?_ ?_
    · exact fun f hf => isCrlf_standing crlf broken whole hf
    · intro f hf first
      obtain ⟨b, w, text, stop, -, ends, -⟩ := Locator.exists_edges hf
      rw [← List.append_assoc] at text
      rw [List.nil_append, stop, text, Text.after_size] at first
      exact ends first ((text ▸ crlf).before first)

end

/-- A call and a block, each line ended by a carriage return and a line feed. -/
def crlfSource : Text := "sql('a')\r\n%%sql\r\nb\r\n".toList

/-- Writes line feeds only. -/
def feeding : Formatter := .constant "SELECT b\nFROM c".toList

/-- The lines of both replacements end like the lines around them. -/
theorem transform_keeps_line_endings_crlfSource :
    (transform feeding {} crlfSource).text =
        "sql('''\r\n    SELECT b\r\n    FROM c\r\n''')\r\n%%sql\r\nSELECT b\r\nFROM c\r\n".toList ∧
      IsCrlf (transform feeding {} crlfSource).text := by
  have oneLine {t : Text} (h : t.contains '\n' = false) : IsCrlf t :=
    isCrlf_of_not_mem (by simpa using h)
  have crlf : IsCrlf crlfSource := by
    have first := (oneLine (t := "sql('a')".toList) (by decide)).append isCrlf_break
    have second := (oneLine (t := "%%sql".toList) (by decide)).append isCrlf_break
    have third := (oneLine (t := "b".toList) (by decide)).append isCrlf_break
    exact first.append (second.append third)
  refine ⟨by with_unfolding_all decide, transform_keeps_line_endings feeding {} crlfSource (by decide) crlf ?_⟩
  intro text out shape formatted lines
  cases formatted
  have same : Layout.splitLines (Dialect.ofName "spark") "SELECT b\nFROM c".toList =
      some [⟨"SELECT b".toList, false⟩, ⟨"FROM c".toList, false⟩] := by with_unfolding_all decide
  cases same.symm.trans lines
  decide

end HostSql
