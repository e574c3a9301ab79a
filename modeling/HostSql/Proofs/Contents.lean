import HostSql.Proofs.Carries
import HostSql.Proofs.Host.Shape
import HostSql.Proofs.Layout.Tokens
import HostSql.Proofs.Mask.Segments

/-! What stands in the place of a fragment after a replacement. It has the words of the unmasked text, and a
token over several lines stands there as the formatter wrote it, with the expressions in place of
their identifiers. Which lines belong to a token is read off the formatted text; the lines that are
put in place are those of the unmasked text. No identifier lies across the end of such a token, and
no expression has a line break, so the lines of the one are the lines of the other. -/
namespace HostSql
open Layout (Line)
open Sql (Lexes texts Token)
open Text (Ended Trimmed)

namespace Replacement

/-- What a replacement says: the body of a new literal, or the new lines of a block. -/
def content (f : Fragment) (new : Text) : Option Text :=
  match f.kind with
  | .block => some new
  | .call =>
    match Literal.read new with
    | .closed u [] => some u.body
    | _ => none

variable {d : Dialect} {masked sql new : Text} {ls : List Line} {c : Config} {buffer : Text} {f : Fragment}
  {q : Quote}

/-- The lines of the unmasked text, with what the tokens of the masked text say of its line breaks. -/
theorem exists_tokens_of_sqlLines (h : sqlLines d masked sql = some ls) :
    ∃ ks, Lexes d masked ks ∧
      ls = withoutEmptyLast (sql.lines.zipWith Line.mk (false :: (texts ks).flatMap Layout.inner)) := by
  obtain ⟨shape, hs, -, rfl⟩ := exists_shape_of_sqlLines h
  obtain ⟨tokens, tokenized, rfl⟩ := Option.map_eq_some_iff.1 hs
  obtain ⟨ks, lexes, rfl⟩ := Layout.tokenize_eq_some_iff.1 tokenized
  refine ⟨ks, lexes, ?_⟩
  have flags : (Layout.linesWith masked ((Layout.spanned 0 ks).map (·.span))).map (·.continued) =
      false :: (texts ks).flatMap Layout.inner := by
    have lines := Layout.linesWith_flatten (texts ks)
    rw [lexes.flatten] at lines
    rw [Layout.map_span_spanned, lines, Layout.map_continued_zipWith]
    rw [Text.length_lines, List.length_cons, Layout.length_flatMap_inner, lexes.flatten]
  rw [← flags]

/-- A token over several lines, with the expressions in place of their identifiers, stands on lines of the
unmasked text that start inside a token but for the first one. -/
theorem carries_token {qs : List Placeholder} {ks : List Token} {k : Token} (proper : Mask.Proper qs)
    (back : unmask masked qs = some sql) (count : sql.count '\n' = masked.count '\n')
    (lexes : Lexes d masked ks) (hk : k ∈ ks) (broken : '\n' ∈ k.text) (trimmed : Trimmed k.text) :
    ∃ t, unmask k.text (qs.filter (·.token.occursIn k.text)) = some t ∧ Trimmed t ∧
      Carries t (sql.lines.zipWith Line.mk (false :: (texts ks).flatMap Layout.inner)) := by
  obtain ⟨before, after, rfl⟩ := List.append_of_mem hk
  obtain ⟨c, u, n, whole, token, text⟩ := lexes.exists_first
  have bounded := Sql.Lexer.bounded_of_first token (text ▸ broken)
  have parts : c :: u = k.text ++ u.drop n := by
    rw [text, List.cons_append, List.take_append_drop]
  have front : Mask.Seam (texts before).flatten (k.text ++ u.drop n) :=
    parts ▸ Mask.seam_front bounded (texts before).flatten
  rw [whole, parts] at back count
  obtain ⟨x, t, z, rfl, alone, trimmed', first, inside⟩ :=
    Mask.unmask_part proper back count front (text ▸ Mask.seam_back bounded) trimmed
  refine ⟨t, alone, trimmed', ?_⟩
  have flags : (texts (before ++ k :: after)).flatMap Layout.inner = (texts before).flatMap Layout.inner ++
      (List.replicate (t.count '\n') true ++ (texts after).flatMap Layout.inner) := by
    rw [Sql.texts_append, Sql.texts_cons, List.flatMap_append, List.flatMap_cons, Layout.inner_of_ended trimmed.ends,
      inside]
  rw [flags]
  apply carries_zipWith trimmed'
  rw [Layout.length_flatMap_inner, first]

/-! ## Delimiters and blocks -/

/-- Between its delimiters a literal has the words of the unmasked text, and what lines carry. -/
theorem delimit_content (placed : delimit c buffer f q masked sql = .ok new) :
    ∃ (q' : Quote) (body : Text), q'.fits body = true ∧ new = wrap f.marks q' body ∧ body.words = sql.words ∧
      ('\n' ∈ sql → ∃ ls, sqlLines (Dialect.ofName c.dialect) masked sql = some ls ∧
        ∀ t, Ended t → Carries t ls → t <:+: body) := by
  obtain ⟨q', body, fits, rfl, ⟨oneLine, rfl⟩ | ⟨-, ls, lines, rfl⟩⟩ := delimit_cases placed
  · exact ⟨q', body, fits, rfl, rfl, fun broken => absurd broken oneLine⟩
  · refine ⟨q', _, fits, rfl, ?_, fun _ => ⟨ls, lines, fun t ended carries => ?_⟩⟩
    · rw [words_layout (lineBreak_isBreak buffer _) blank_lineIndent, wordsOf_settle, wordsOf_sqlLines lines]
    · exact (carries.settle ended).layout c _ _

/-- So have the lines of a block. -/
theorem blockLines_content (placed : blockLines c buffer f masked sql = .ok new) :
    new.words = sql.words ∧ ∃ ls, sqlLines (Dialect.ofName c.dialect) masked sql = some ls ∧
      ∀ t, Ended t → Carries t ls → t <:+: new := by
  obtain ⟨ls, lines, kept, rfl⟩ := blockLines_cases placed
  have hput (l : Line) : ∃ g, l.text = g ++ l.text ∧ ∀ c ∈ g, isBlank c = true := ⟨[], rfl, nofun⟩
  refine ⟨?_, ls, lines, fun t ended carries => ?_⟩
  · rw [words_joinLines (lineBreak_isBreak buffer _) hput, wordsOf_solid, wordsOf_settle, wordsOf_sqlLines lines]
  · apply ((carries.settle ended).solid kept).joinLines
    · exact fun l => ⟨[], rfl⟩
    · exact fun _ _ => rfl

/-- Each token over several lines stands in the text as it was formatted, with the expressions in place of
their identifiers. Where such a token begins and ends with characters that are not blank, its line
breaks are strictly inside. -/
def HoldsTokens (d : Dialect) (qs : List Placeholder) (formatted content : Text) : Prop :=
  ∃ tokens, Layout.tokenize d formatted = some tokens ∧
    ∀ k ∈ tokens, '\n' ∈ k.token.text → Trimmed k.token.text →
      ∃ t, unmask k.token.text (qs.filter (·.token.occursIn k.token.text)) = some t ∧ t <:+: content

theorem holdsTokens_of_carries {qs : List Placeholder} {content : Text} (proper : Mask.Proper qs)
    (back : unmask masked qs = some sql) (lines : sqlLines d masked sql = some ls)
    (holds : ∀ t, Ended t → Carries t ls → t <:+: content) : HoldsTokens d qs masked content := by
  obtain ⟨ks, lexes, rfl⟩ := exists_tokens_of_sqlLines lines
  refine ⟨_, Layout.tokenize_eq_some_iff.2 ⟨ks, lexes, rfl⟩, fun k hk broken trimmed => ?_⟩
  have among : k.token ∈ ks := by
    rw [← Layout.map_token_spanned 0 ks]
    exact List.mem_map_of_mem hk
  obtain ⟨t, alone, trimmed', carries⟩ :=
    carries_token proper back (count_of_sqlLines lines) lexes among broken trimmed
  exact ⟨t, alone, holds t trimmed'.ends carries.withoutEmptyLast⟩

theorem proper_of_masked {m : Masked} (h : Replacement.masked f = some m) : Mask.Proper m.placeholders := by
  unfold Replacement.masked at h
  split at h
  · exact Mask.proper_of_mask h
  · cases h
    exact Mask.proper_nil

end Replacement

section
variable {format : Formatter} {c : Config} {l : Locator} {buffer new : Text} {f : Fragment}

/-- What is put in the place of a fragment that was located has the words of the unmasked text, and nothing
else. If the formatted text has several lines, it has tokens, and those over several lines stand in
what is put in place. -/
theorem replacement_keeps_tokens (located : f ∈ l.locate buffer)
    (replaced : replacement format c buffer f = .ok new) :
    ∃ m formatted sql content, Replacement.masked f = some m ∧ format c m.text = .ok formatted ∧
      unmask formatted m.placeholders = some sql ∧ Replacement.content f new = some content ∧
      content.words = sql.words ∧ ('\n' ∈ formatted →
        Replacement.HoldsTokens (Dialect.ofName c.dialect) m.placeholders formatted content) := by
  obtain ⟨m, formatted, sql, masked, formats, back, placed, -⟩ := replacement_eq_ok_iff.1 replaced
  have proper := Replacement.proper_of_masked masked
  refine ⟨m, formatted, sql, ?_⟩
  cases Locator.shaped_of_locate located with
  | @block n raw =>
    obtain ⟨words, ls, lines, holds⟩ := Replacement.blockLines_content placed
    refine ⟨new, masked, formats, back, rfl, words, fun _ => ?_⟩
    exact Replacement.holdsTokens_of_carries proper back lines holds
  | @literal n v sound =>
    obtain ⟨q, body, fits, rfl, words, several⟩ := Replacement.delimit_content placed
    refine ⟨body, masked, formats, back, ?_, words, fun broken => ?_⟩
    · have read : Literal.read (Replacement.wrap v.marks q body) = .closed ⟨v.marks, q, body⟩ [] := by
        apply Literal.read_eq_closed_iff.2
        exact ⟨⟨sound.marks, Quote.fits_iff.1 fits⟩, fun _ _ => by simp, (List.append_nil _).symm⟩
      have same : (Fragment.ofLiteral n v).marks = v.marks := rfl
      rw [same, Replacement.content, read]
      rfl
    · obtain ⟨ls, lines, holds⟩ := several (Mask.newline_of_unmask proper back broken)
      exact Replacement.holdsTokens_of_carries proper back lines holds

end

/-- A call with an expression between quotes and one outside. -/
def quotedExpression : Fragment := .ofLiteral 4 ⟨['f'], .double, "SELECT '{a} x' FROM {b}".toList⟩

/-- A formatter that breaks a string. -/
def breaking : Formatter := .constant "SELECT '__ESQL_MASK_0__\n  x'\nFROM __ESQL_MASK_1__".toList

/-- The line in the string is not indented, the one behind it is. -/
theorem replacement_keeps_tokens_quotedExpression :
    ∃ content, replacement breaking {} "sql(f\"SELECT '{a} x' FROM {b}\")".toList quotedExpression =
        .ok "f\"\"\"\n    SELECT '{a}\n  x'\n    FROM {b}\n\"\"\"".toList ∧
      Replacement.content quotedExpression "f\"\"\"\n    SELECT '{a}\n  x'\n    FROM {b}\n\"\"\"".toList =
        some content ∧
      content.words = ["SELECT".toList, "'{a}".toList, "x'".toList, "FROM".toList, "{b}".toList] ∧
      "'{a}\n  x'".toList <:+: content := by
  have located : quotedExpression ∈
      (Locator.ofConfig {}).locate "sql(f\"SELECT '{a} x' FROM {b}\")".toList := by
    have all : (Locator.ofConfig {}).locate "sql(f\"SELECT '{a} x' FROM {b}\")".toList =
        [quotedExpression] := by
      with_unfolding_all decide
    rw [all]
    exact List.mem_singleton_self _
  have value : Replacement.masked quotedExpression = some ⟨"SELECT '__ESQL_MASK_0__ x' FROM __ESQL_MASK_1__".toList,
      [⟨"__ESQL_MASK_0__".toList, "{a}".toList⟩, ⟨"__ESQL_MASK_1__".toList, "{b}".toList⟩]⟩ := by
    with_unfolding_all decide
  have known : unmask "SELECT '__ESQL_MASK_0__\n  x'\nFROM __ESQL_MASK_1__".toList
      [⟨"__ESQL_MASK_0__".toList, "{a}".toList⟩, ⟨"__ESQL_MASK_1__".toList, "{b}".toList⟩] =
        some "SELECT '{a}\n  x'\nFROM {b}".toList :=
    (Mask.unmask_of_ascending (by decide) (by decide)).trans (by decide)
  have replaced : replacement breaking {} "sql(f\"SELECT '{a} x' FROM {b}\")".toList quotedExpression =
      .ok "f\"\"\"\n    SELECT '{a}\n  x'\n    FROM {b}\n\"\"\"".toList :=
    replacement_eq_ok_iff.2 ⟨_, _, _, value, rfl, known, by with_unfolding_all decide, by decide⟩
  obtain ⟨m, formatted, sql, content, masked, formats, back, said, words, tokens⟩ :=
    replacement_keeps_tokens located replaced
  obtain rfl := Option.some.inj (value.symm.trans masked)
  obtain rfl : "SELECT '__ESQL_MASK_0__\n  x'\nFROM __ESQL_MASK_1__".toList = formatted := Except.ok.inj formats
  obtain rfl : "SELECT '{a}\n  x'\nFROM {b}".toList = sql := Option.some.inj (known.symm.trans back)
  refine ⟨content, replaced, said, ?_, ?_⟩
  · rw [words]
    decide
  · obtain ⟨ts, tokenized, each⟩ := tokens (by decide)
    have known : Layout.tokenize (Dialect.ofName ({} : Config).dialect)
        "SELECT '__ESQL_MASK_0__\n  x'\nFROM __ESQL_MASK_1__".toList = some (Layout.spanned 0 [
          ⟨.word, "SELECT".toList⟩, ⟨.blank, " ".toList⟩,
          ⟨.string .single, "'__ESQL_MASK_0__\n  x'".toList⟩, ⟨.blank, "\n".toList⟩,
          ⟨.word, "FROM".toList⟩, ⟨.blank, " ".toList⟩, ⟨.word, "__ESQL_MASK_1__".toList⟩]) := by
      with_unfolding_all decide
    obtain rfl := Option.some.inj (known.symm.trans tokenized)
    obtain ⟨t, alone, inside⟩ := each ⟨⟨.string .single, "'__ESQL_MASK_0__\n  x'".toList⟩, ⟨7, 28⟩⟩
      (by decide) (by decide) ⟨⟨'\'', rfl, by decide⟩, '\'', rfl, by decide⟩
    have own : unmask "'__ESQL_MASK_0__\n  x'".toList
        ([⟨"__ESQL_MASK_0__".toList, "{a}".toList⟩, ⟨"__ESQL_MASK_1__".toList, "{b}".toList⟩].filter
          (·.token.occursIn "'__ESQL_MASK_0__\n  x'".toList)) = some "'{a}\n  x'".toList := by
      with_unfolding_all decide
    obtain rfl := Option.some.inj (own.symm.trans alone)
    exact inside

end HostSql
