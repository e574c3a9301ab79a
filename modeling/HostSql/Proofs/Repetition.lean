import HostSql.Proofs.Stability

/-! The replacement of one call put in the place of its literal, everything else left as it is. The
line break and the indentation that a second replacement reads off the new text are those that the
first one read off the old text, also where the only line break left is one that the replacement
brought along. -/
namespace HostSql
open Layout (Line)

namespace Replacement
variable {c : Config} {buffer masked sql new newline b u u' w x y z : Text} {f : Fragment}
  {q q' : Quote} {ls : List Line} {v v' : Literal}

/-! ## The line break -/

/-- With a line break ahead, what stands behind the position does not matter unless it ends with a
carriage return. -/
theorem lineBreak_ahead (ahead : '\n' ∈ w) (hu : u.getLast? ≠ some '\r')
    (hu' : u'.getLast? ≠ some '\r') :
    lineBreak (u' ++ w) u'.size = lineBreak (u ++ w) u.size := by
  obtain ⟨lead, rest, rfl, oneLine⟩ := List.eq_append_cons_of_mem ahead
  have first : (lead ++ '\n' :: rest).takeWhile (· != '\n') = lead :=
    Text.takeWhile_stop (Text.ne_newline oneLine) rfl
  have shorter : lead.length < (lead ++ '\n' :: rest).length := by simp
  unfold lineBreak
  simp only [Text.before_size, Text.after_size, first, if_pos shorter]
  rcases List.eq_nil_or_concat lead with rfl | ⟨init, x, rfl⟩
  · simp only [List.append_nil, if_neg hu, if_neg hu']
  · simp only [← List.append_assoc, List.concat_eq_append, List.getLast?_concat]

/-- Without one, the last line break behind the position is taken. -/
theorem lineBreak_behind (none : '\n' ∉ w) (oneLine : '\n' ∉ z) :
    lineBreak ((y ++ '\n' :: z) ++ w) (Text.size (y ++ '\n' :: z)) =
      if y.getLast? = some '\r' then ['\r', '\n'] else ['\n'] := by
  have lead : w.takeWhile (· != '\n') = w := Text.takeWhile_line none
  have back : (y ++ '\n' :: z).reverse = z.reverse ++ '\n' :: y.reverse := by simp
  have found : (y ++ '\n' :: z).reverse.dropWhile (· != '\n') = '\n' :: y.reverse := by
    rw [back]
    exact Text.dropWhile_stop (Text.ne_newline (by simpa using oneLine)) rfl
  unfold lineBreak
  simp only [Text.before_size, Text.after_size, lead, found, Nat.lt_irrefl, if_false,
    List.tail_cons, List.head?_reverse]

theorem padded_ends {pad : Text} {l : Line} (hp : pad.getLast? ≠ some '\r')
    (h : l.text.getLast? ≠ some '\r') : (padded pad l).getLast? ≠ some '\r' := by
  unfold padded
  split
  · rw [List.getLast?_append]
    cases ht : l.text.getLast? with
    | none => exact hp
    | some x => rwa [ht] at h
  · exact h

/-- Settled lines do not end with a carriage return when they are joined: the last of them has no
blanks at its end. -/
theorem joinLines_ends {pad : Text} (hb : IsBreak newline) (hp : pad.getLast? ≠ some '\r')
    (ls : List Line) : (joinLines newline (padded pad) (settle ls)).getLast? ≠ some '\r' := by
  induction ls with
  | nil => exact nofun
  | cons l ls ih =>
    obtain ⟨l', hs, -, -, trimmed⟩ := settle_cons l ls
    rw [hs]
    cases ls with
    | nil =>
      have text : l'.text = l.text.trimEnd := trimmed nofun
      have one : joinLines newline (padded pad) [l'] = padded pad l' := by simp [joinLines]
      rw [settle, one]
      exact padded_ends hp (text ▸ trimEnd_ends l.text)
    | cons next more =>
      obtain ⟨n', hs', -⟩ := settle_cons next more
      rw [hs'] at ih ⊢
      rw [joinLines_cons, List.getLast?_append, List.getLast?_append]
      cases last : (joinLines newline (padded pad) (n' :: settle more)).getLast? with
      | some x => rwa [last] at ih
      | none => rcases separator_cases hb n' with h | h <;> rw [h] <;> simp

/-- The last line break of a layout is the one that its lines are joined with. -/
theorem lineBreak_layout {base : Text} (hb : IsBreak newline)
    (hbase : ∀ x ∈ base, isIndent x = true) (behind : '\n' ∉ z) (ahead : '\n' ∉ w) :
    lineBreak ((y ++ (layout c newline base (settle ls) ++ z)) ++ w)
      (Text.size (y ++ (layout c newline base (settle ls) ++ z))) = newline := by
  have indent : ∀ x ∈ base ++ List.replicate c.indent ' ', isIndent x = true := by
    intro x hx
    rcases List.mem_append.1 hx with hx | hx
    · exact hbase x hx
    · rw [(List.mem_replicate.1 hx).2]
      rfl
  have pad : (base ++ List.replicate c.indent ' ').getLast? ≠ some '\r' := fun h =>
    absurd (indent _ (List.mem_of_getLast? h)) (by decide)
  have oneLine : '\n' ∉ base ++ z := by
    intro h
    rcases List.mem_append.1 h with h | h
    · exact absurd (hbase _ h) (by decide)
    · exact behind h
  have joined := joinLines_ends hb pad ls
  generalize hj : joinLines newline (padded (base ++ List.replicate c.indent ' ')) (settle ls) = j
    at joined
  rcases hb with rfl | rfl
  · have shape : y ++ (layout c ['\n'] base (settle ls) ++ z) =
        (y ++ ('\n' :: j)) ++ '\n' :: (base ++ z) := by
      simp [layout, hj]
    rw [shape, lineBreak_behind ahead oneLine, if_neg]
    rw [List.getLast?_append, List.getLast?_cons]
    cases hl : j.getLast? with
    | none => simp
    | some x => rw [hl] at joined; simpa using joined
  · have shape : y ++ (layout c ['\r', '\n'] base (settle ls) ++ z) =
        ((y ++ ('\r' :: '\n' :: j)) ++ ['\r']) ++ '\n' :: (base ++ z) := by
      simp [layout, hj]
    rw [shape, lineBreak_behind ahead oneLine, List.getLast?_concat, if_pos rfl]

/-! ## The second replacement -/

theorem lineIndent_repeats (b x y : Text) : lineIndent (b ++ y) b.size = lineIndent (b ++ x) b.size := by
  unfold lineIndent
  rw [Text.before_size, Text.before_size]

/-- A literal that was laid out with a line break has this one before what follows it, be it the one
that follows or its own. -/
theorem lineBreak_repeats {base : Text} (hbase : ∀ x ∈ base, isIndent x = true)
    (hb : newline = lineBreak (b ++ v.text ++ w) (b ++ v.text).size)
    (body : v'.body = layout c newline base (settle ls)) :
    lineBreak (b ++ v'.text ++ w) (b ++ v'.text).size = newline := by
  by_cases ahead : '\n' ∈ w
  · rw [hb]
    refine lineBreak_ahead ahead ?_ ?_
    · rw [last_literal]
      exact char_ne_return v.quote
    · rw [last_literal]
      exact char_ne_return v'.quote
  · have closing : '\n' ∉ v'.quote.delimiter := by cases v'.quote <;> decide
    have shape : b ++ v'.text = (b ++ (v'.marks ++ v'.quote.delimiter)) ++
        (layout c newline base (settle ls) ++ v'.quote.delimiter) := by
      rw [Literal.text, body]
      simp
    rw [shape]
    exact lineBreak_layout (hb ▸ lineBreak_isBreak _ _) hbase closing ahead

/-- The new literal in the place of the old one gets the same line break and indentation, the same
delimiter, and so the same text. -/
theorem delimit_repeats (hp : delimit c (b ++ (v.text ++ w)) f q masked sql = .ok new)
    (span : f.span = ⟨b.size, b.size + v.text.size⟩) :
    ∃ v' : Literal, v'.marks = f.marks ∧ v'.quote.Encloses v'.body ∧ new = v'.text ∧
      ∀ f' : Fragment, f'.marks = f.marks → f'.span = ⟨b.size, b.size + v'.text.size⟩ →
        ('\n' ∈ sql →
          lineBreak (b ++ (v'.text ++ w)) f'.span.stop =
            lineBreak (b ++ (v.text ++ w)) f.span.stop ∧
          lineIndent (b ++ (v'.text ++ w)) f'.span.start =
            lineIndent (b ++ (v.text ++ w)) f.span.start) ∧
        delimit c (b ++ (v'.text ++ w)) f' v'.quote masked sql = .ok new := by
  by_cases hn : '\n' ∈ sql
  · rw [delimit_several hn] at hp
    split at hp
    · cases hp
    next ls hs =>
    generalize hbase : lineIndent (b ++ (v.text ++ w)) f.span.start = base at *
    generalize hbreak : lineBreak (b ++ (v.text ++ w)) f.span.stop = newline at *
    dsimp only at hp
    split at hp
    · next q' found =>
      cases hp
      obtain ⟨-, fits, again⟩ := triple_again found
      let v' : Literal := ⟨f.marks, q', layout c newline base (settle ls)⟩
      refine ⟨v', rfl, Quote.fits_iff.1 fits, rfl, fun f' marks span' => ?_⟩
      have indent : lineIndent (b ++ (v'.text ++ w)) f'.span.start = base := by
        rw [span', ← hbase, span]
        exact lineIndent_repeats b _ _
      have break' : lineBreak (b ++ (v'.text ++ w)) f'.span.stop = newline := by
        rw [span', ← List.append_assoc, ← Text.size_append]
        refine lineBreak_repeats (v := v) (hbase ▸ fun x => isIndent_lineIndent x) ?_ rfl
        rw [← hbreak, span, List.append_assoc, Text.size_append]
      refine ⟨fun _ => ⟨break', indent⟩, ?_⟩
      rw [delimit_several hn, hs]
      dsimp only
      rw [break', indent, again, marks]
    · cases hp
  · rw [delimit_line hn] at hp
    split at hp
    · next fits =>
      cases hp
      refine ⟨⟨f.marks, q, sql⟩, rfl, Quote.fits_iff.1 fits, rfl, fun f' marks _ =>
        ⟨(absurd · hn), ?_⟩⟩
      rw [delimit_line hn, if_pos fits, marks]
    · cases hp

end Replacement

open Replacement Splice

section
variable {format : Formatter} {c : Config} {l : Locator} {buffer new : Text} {f : Fragment}

/-- Fragments whose text can be put in place and is there already. -/
theorem already_formatted {formatted sql : Text} (h : Formats format c f formatted sql)
    (hp : place c buffer f formatted sql = .ok (buffer.slice f.span)) :
    replacement format c buffer f = .error .alreadyFormatted := by
  obtain ⟨m, hm, hf, hs⟩ := h
  unfold replacement
  simp [hm, hf, hs, hp]

/-- The text that replaces the argument of a call reads as a literal in the place of the argument. If
the formatter makes of it what it made of the argument, it is laid out in the same way and stays. -/
theorem replacement_repeats (hf : f ∈ l.locate buffer) (kind : f.kind = .call)
    (hr : replacement format c buffer f = .ok new) :
    ∃ v : Literal, v.marks = f.marks ∧ v.text = new ∧
      Literal.read ((replaceSpan buffer f.span new).after f.span.start) =
        .closed v (buffer.after f.span.stop) ∧
      ∀ formatted sql, Formats format c f formatted sql →
        Formats format c (.ofLiteral f.span.start v) formatted sql →
        SameLayout c buffer f (replaceSpan buffer f.span new) (.ofLiteral f.span.start v)
          formatted sql ∧
        place c (replaceSpan buffer f.span new) (.ofLiteral f.span.start v) formatted sql =
          .ok new ∧
        replacement format c (replaceSpan buffer f.span new) (.ofLiteral f.span.start v) =
          .error .alreadyFormatted := by
  obtain ⟨b, w, u, rfl, rfl, sound, closes⟩ := Locator.exists_argument hf kind
  obtain ⟨formatted, sql, h, hp, -⟩ := replacement_eq_ok_iff_formats.1 hr
  obtain ⟨v, marks, encloses, rfl, again⟩ := delimit_repeats hp rfl
  have rest : (b ++ (u.text ++ w)).after (Fragment.ofLiteral b.size u).span.stop = w := by
    rw [Fragment.ofLiteral, ← List.append_assoc, ← Text.size_append, Text.after_size]
  have put : replaceSpan (b ++ (u.text ++ w)) (Fragment.ofLiteral b.size u).span v.text =
      b ++ (v.text ++ w) := by
    rw [replaceSpan, rest, Fragment.ofLiteral, Text.before_size, List.append_assoc]
  have read : Literal.read (v.text ++ w) = .closed v w :=
    Literal.read_eq_closed_iff.2
      ⟨⟨marks ▸ sound.marks, encloses⟩, Locator.closesCall_apart closes, rfl⟩
  rw [put, rest]
  refine ⟨v, marks, rfl, ?_, fun formatted' sql' h' again' => ?_⟩
  · rw [Fragment.ofLiteral, Text.after_size]
    exact read
  obtain ⟨rfl, rfl⟩ := h.unique h'
  obtain ⟨same, placed⟩ := again (.ofLiteral b.size v) marks rfl
  have slice : (b ++ (v.text ++ w)).slice (Fragment.ofLiteral b.size v).span = v.text :=
    Text.slice_between b v.text w
  refine ⟨same, placed, already_formatted again' ?_⟩
  exact placed.trans (congrArg _ slice.symm)

end

/-- A call at the end of a text, with the only line break before it. -/
def lastCall : Text := "x\r\n sql(\"a\")".toList

def lastArgument : Fragment := .ofLiteral 8 ⟨[], .double, "a".toList⟩

/-- Two lines, one of which holds the triple delimiter that would be tried first. -/
def quoting : Formatter := .constant "a\n\"\"\"b\"".toList

def requoted : Literal := ⟨[], .tripleSingle, "\r\n     a\r\n     \"\"\"b\"\r\n ".toList⟩

/-- The other delimiter is taken and, all line breaks left being within the literal, kept. -/
theorem replacement_repeats_lastCall :
    replacement quoting {} lastCall lastArgument = .ok requoted.text ∧
      replacement quoting {} (replaceSpan lastCall lastArgument.span requoted.text)
        (.ofLiteral 8 requoted) = .error .alreadyFormatted := by
  have located : (Locator.ofConfig {}).locate lastCall = [lastArgument] := by
    with_unfolding_all decide
  have formats {raw : Text} (n : Nat) (q : Quote) : Formats quoting {} (.ofLiteral n ⟨[], q, raw⟩)
      "a\n\"\"\"b\"".toList "a\n\"\"\"b\"".toList :=
    ⟨⟨raw, []⟩, rfl, rfl, Mask.unmask_nil _⟩
  have first : replacement quoting {} lastCall lastArgument = .ok requoted.text :=
    replacement_eq_ok_iff_formats.2 ⟨_, _, formats _ _, by with_unfolding_all decide, by decide⟩
  obtain ⟨v, -, -, read, again⟩ :=
    replacement_repeats (located ▸ List.mem_singleton_self _) rfl first
  have reads : Literal.read ((replaceSpan lastCall lastArgument.span requoted.text).after
      lastArgument.span.start) = .closed requoted [')'] := by decide
  obtain ⟨rfl, -⟩ := Literal.Reading.closed.inj (read.symm.trans reads)
  exact ⟨first, (again _ _ (formats _ _) (formats _ _)).2.2⟩

end HostSql
