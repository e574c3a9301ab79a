import HostSql.Proofs.Clauses
import HostSql.Proofs.Host.Shape
import HostSql.Proofs.Mask.Reformat
import HostSql.Proofs.Placement
import HostSql.Proofs.Transform

/-! A second pass with the formatter that puts clauses on lines of their own. It finds the same
fragments, gets the same formatted text out of each, and puts that text on the same lines. Line
breaks and indentation it reads off the buffer that the first pass has left behind, so whether it
changes anything depends on these alone. -/
namespace HostSql
open Replacement
open Formatter (clauses)
open Layout (Line)
open Text (Respaced Rebroken)

/-- What a formatter makes of a fragment before that is put in its place. -/
def Formats (format : Formatter) (c : Config) (f : Fragment) (formatted sql : Text) : Prop :=
  ∃ m, masked f = some m ∧ format c m.text = .ok formatted ∧
    unmask formatted m.placeholders = some sql

/-- A fragment is laid out in the same way at its places in two buffers. For a call over several
lines that takes the same line break behind it and the same indentation before it, for a block of
which some line after the first does not start inside a token the same line break. -/
def SameLayout (c : Config) (buffer : Text) (f : Fragment) (buffer' : Text) (f' : Fragment)
    (formatted sql : Text) : Prop :=
  match f.kind with
  | .call => '\n' ∈ sql →
      lineBreak buffer' f'.span.stop = lineBreak buffer f.span.stop ∧
      lineIndent buffer' f'.span.start = lineIndent buffer f.span.start
  | .block => ∀ ls, sqlLines (Dialect.ofName c.dialect) formatted sql = some ls →
      (∃ l ∈ ls.tail, l.continued = false) →
      lineBreak buffer' f'.span.start = lineBreak buffer f.span.start

section
variable {format : Formatter} {c : Config} {l : Locator} {buffer buffer' formatted sql new : Text}
  {f f' : Fragment} {e : Unchanged}

theorem Formats.unique {formatted' sql' : Text} (h : Formats format c f formatted sql)
    (h' : Formats format c f formatted' sql') : formatted' = formatted ∧ sql' = sql := by
  obtain ⟨m, hm, hf, hs⟩ := h
  obtain ⟨m', hm', hf', hs'⟩ := h'
  cases hm.symm.trans hm'
  cases hf.symm.trans hf'
  cases hs.symm.trans hs'
  exact ⟨rfl, rfl⟩

theorem replacement_eq_ok_iff_formats :
    replacement format c buffer f = .ok new ↔
      ∃ formatted sql, Formats format c f formatted sql ∧
        place c buffer f formatted sql = .ok new ∧ new ≠ buffer.slice f.span := by
  rw [replacement_eq_ok_iff]
  constructor
  · rintro ⟨m, formatted, sql, hm, hf, hs, hp, hne⟩
    exact ⟨formatted, sql, ⟨m, hm, hf, hs⟩, hp, hne⟩
  · rintro ⟨formatted, sql, ⟨m, hm, hf, hs⟩, hp, hne⟩
    exact ⟨m, formatted, sql, hm, hf, hs, hp, hne⟩

/-- A fragment whose formatted text can be put in place is left alone exactly when it has that text
already. -/
theorem not_replaced_of_place (h : Formats format c f formatted sql)
    (hp : place c buffer f formatted sql = .ok new) :
    (∃ e, replacement format c buffer f = .error e) ↔ new = buffer.slice f.span := by
  cases hr : replacement format c buffer f with
  | error e =>
    refine ⟨fun _ => ?_, fun _ => ⟨e, rfl⟩⟩
    by_contra hne
    have := replacement_eq_ok_iff_formats.2 ⟨formatted, sql, h, hp, hne⟩
    rw [hr] at this
    cases this
  | ok x =>
    obtain ⟨formatted', sql', h', hp', hne⟩ := replacement_eq_ok_iff_formats.1 hr
    obtain ⟨rfl, rfl⟩ := h.unique h'
    cases hp.symm.trans hp'
    exact iff_of_false (fun ⟨e, he⟩ => by cases he) hne

theorem not_replaced_of_error (h : ∀ formatted sql, Formats format c f formatted sql →
      ∃ e, place c buffer f formatted sql = .error e) :
    ∃ e, replacement format c buffer f = .error e := by
  cases hr : replacement format c buffer f with
  | error e => exact ⟨e, rfl⟩
  | ok x =>
    obtain ⟨formatted, sql, h', hp, -⟩ := replacement_eq_ok_iff_formats.1 hr
    obtain ⟨e, he⟩ := h formatted sql h'
    rw [he] at hp
    cases hp

/-- Formatted text that can be put in place stands there after the pass. -/
theorem standing_of_place (h : Formats format c f formatted sql)
    (hp : place c buffer f formatted sql = .ok new) :
    Splice.standing format c buffer f = new := by
  unfold Splice.standing
  cases hr : replacement format c buffer f with
  | ok x =>
    obtain ⟨formatted', sql', h', hp', -⟩ := replacement_eq_ok_iff_formats.1 hr
    obtain ⟨rfl, rfl⟩ := h.unique h'
    cases hp.symm.trans hp'
    rfl
  | error e => exact ((not_replaced_of_place h hp).1 ⟨e, hr⟩).symm

/-- A fragment keeps its text if no formatted text can be put in its place. -/
theorem standing_of_not_placed (h : ¬∃ formatted sql new, Formats format c f formatted sql ∧
      place c buffer f formatted sql = .ok new) :
    Splice.standing format c buffer f = buffer.slice f.span := by
  unfold Splice.standing
  cases hr : replacement format c buffer f with
  | ok new =>
    obtain ⟨formatted, sql, h', hp, -⟩ := replacement_eq_ok_iff_formats.1 hr
    exact absurd ⟨formatted, sql, new, h', hp⟩ h
  | error e => rfl

/-! ## The same formatted text at another place -/

section Place
variable (tidy : ∀ ls, sqlLines (Dialect.ofName c.dialect) formatted sql = some ls →
  Text.tidyFrom false sql = true)
include tidy

/-- Text that cannot be put in place cannot be put anywhere. -/
theorem place_error (hp : place c buffer f formatted sql = .error e) (kind : f'.kind = f.kind)
    (quote : f'.quote = f.quote) : ∃ e, place c buffer' f' formatted sql = .error e := by
  unfold place at hp ⊢
  rw [kind, quote]
  cases hk : f.kind with
  | call =>
    cases hq : f.quote with
    | none => exact ⟨_, rfl⟩
    | some q =>
      rw [hk, hq] at hp
      dsimp only at hp ⊢
      by_cases hn : '\n' ∈ sql
      · rw [delimit_lines hn tidy] at hp ⊢
        cases hs : sqlLines (Dialect.ofName c.dialect) formatted sql with
        | none => exact ⟨_, rfl⟩
        | some ls =>
          cases hh : holder q sql with
          | none => exact ⟨_, rfl⟩
          | some q' => rw [hs, hh] at hp; cases hp
      · rw [delimit_line hn] at hp ⊢
        split at hp
        · cases hp
        · next no => exact ⟨_, if_neg no⟩
  | block =>
    rw [hk] at hp
    dsimp only at hp ⊢
    rw [blockLines_lines tidy] at hp ⊢
    cases hs : sqlLines (Dialect.ofName c.dialect) formatted sql with
    | none => exact ⟨_, rfl⟩
    | some ls => rw [hs] at hp; cases hp

/-- A literal that holds formatted text gets the same text at another place if that has the same line
break and the same indentation, provided that it needs them. -/
theorem delimit_again {q : Quote} (hp : delimit c buffer f q formatted sql = .ok new)
    (hm : Literal.isMarks f.marks = true) (shaped : Shaped l f') (kind : f'.kind = .call)
    (marks : f'.marks = f.marks) (text : f'.text = new) :
    (∃ g x g', f'.raw = g ++ (x ++ g') ∧ (∀ c ∈ g, isBlank c = true) ∧
      (∀ c ∈ g', isBlank c = true) ∧ Rebroken sql x) ∧
    ∃ q' again, f'.quote = some q' ∧ delimit c buffer' f' q' formatted sql = .ok again ∧
      (again = new ↔ ('\n' ∈ sql →
        lineBreak buffer' f'.span.stop = lineBreak buffer f.span.stop ∧
        lineIndent buffer' f'.span.start = lineIndent buffer f.span.start)) := by
  have literal {q' : Quote} {body : Text} (fits : q'.Encloses body)
      (whole : f'.text = wrap f.marks q' body) : f'.quote = some q' ∧ f'.raw = body :=
    Fragment.eq_of_literal shaped kind ⟨hm, fits⟩ whole
  by_cases hn : '\n' ∈ sql
  · rw [delimit_lines hn tidy] at hp
    cases hs : sqlLines (Dialect.ofName c.dialect) formatted sql with
    | none => rw [hs] at hp; cases hp
    | some ls =>
      cases hh : holder q sql with
      | none => rw [hs, hh] at hp; cases hp
      | some q' =>
        rw [hs, hh] at hp
        cases hp
        have texts := sqlLines_text (tidy ls hs) hs
        obtain ⟨triple, fits, again⟩ := triple_again hh
        have stays : holder q' sql = some q' := again
        have here := lineBreak_isBreak buffer f.span.stop
        have there := lineBreak_isBreak buffer' f'.span.stop
        have blank {b : Text} {n : Nat} : ∀ x ∈ lineIndent b n, isBlank x = true := blank_lineIndent
        rw [← fits_layout (c := c) triple here (blank (b := buffer) (n := f.span.start)) texts] at fits
        obtain ⟨quote, raw⟩ := literal (Quote.fits_iff.1 fits) text
        obtain ⟨g, x, g', whole, hg, hg', -, rebroken⟩ :=
          rebroken_layout (c := c) here (blank (b := buffer) (n := f.span.start)) texts
        refine ⟨⟨g, x, g', raw.trans whole, hg, hg', rebroken⟩, q', wrap f.marks q'
          (layout c (lineBreak buffer' f'.span.stop) (lineIndent buffer' f'.span.start) ls), quote, ?_, ?_⟩
        · rw [delimit_lines hn tidy, hs, stays, marks]
        · constructor
          · intro same _
            have bodies := List.append_cancel_left (List.append_cancel_right same)
            exact layout_inj there here newline_lineIndent newline_lineIndent bodies
          · intro same
            rw [(same hn).1, (same hn).2]
  · rw [delimit_line hn] at hp
    split at hp
    · next fits =>
      cases hp
      obtain ⟨quote, raw⟩ := literal (Quote.fits_iff.1 fits) text
      refine ⟨⟨[], sql, [], by simp [raw], by simp, by simp, .of_not_mem hn⟩, q, _, quote, ?_,
        iff_of_true rfl (absurd · hn)⟩
      rw [delimit_line hn, if_pos fits, marks]
    · cases hp

/-- The lines of a block get the same text at another place if that has the same line break. -/
theorem blockLines_again (hp : blockLines c buffer f formatted sql = .ok new) (raw : f'.raw = new) :
    (∃ g x g', f'.raw = g ++ (x ++ g') ∧ (∀ c ∈ g, isBlank c = true) ∧
      (∀ c ∈ g', isBlank c = true) ∧ Rebroken sql x) ∧
    ∃ again, blockLines c buffer' f' formatted sql = .ok again ∧
      (again = new ↔ ∀ ls, sqlLines (Dialect.ofName c.dialect) formatted sql = some ls →
        (∃ l ∈ ls.tail, l.continued = false) →
        lineBreak buffer' f'.span.start = lineBreak buffer f.span.start) ∧
      again.lines.map Text.trim = new.lines.map Text.trim := by
  rw [blockLines_lines tidy] at hp ⊢
  cases hs : sqlLines (Dialect.ofName c.dialect) formatted sql with
  | none => rw [hs] at hp; cases hp
  | some ls =>
    rw [hs] at hp
    cases hp
    have texts := sqlLines_text (tidy ls hs) hs
    have here := lineBreak_isBreak buffer f.span.start
    have there := lineBreak_isBreak buffer' f'.span.start
    have bare (l : Line) : ∃ g, l.text = g ++ l.text ∧ ∀ x ∈ g, isBlank x = true :=
      ⟨[], rfl, by simp⟩
    obtain ⟨g, x, whole, hg, rebroken⟩ :=
      rebroken_joinLines here bare texts
    refine ⟨⟨g, x, [], by rw [raw, whole, List.append_nil], hg, by simp, rebroken⟩, _, rfl, ?_, ?_⟩
    · rw [joinLines_eq_iff there here]
      exact ⟨fun h ls' hl => by cases hl; exact h, fun h => h ls rfl⟩
    · rw [map_trim_joinLines there texts, map_trim_joinLines here texts]

variable (buffer') in
/-- What a fragment is replaced with is replaced with the same text at a place where it is laid out
alike. -/
theorem place_again (hp : place c buffer f formatted sql = .ok new) (shaped : Shaped l f)
    (shaped' : Shaped l f') (kind : f'.kind = f.kind) (marks : f'.marks = f.marks)
    (text : f'.text = new) :
    (∃ g x g', f'.raw = g ++ (x ++ g') ∧ (∀ c ∈ g, isBlank c = true) ∧
      (∀ c ∈ g', isBlank c = true) ∧ Rebroken sql x) ∧
    ∃ again, place c buffer' f' formatted sql = .ok again ∧
      (again = new ↔ SameLayout c buffer f buffer' f' formatted sql) ∧
      (f.kind = .block → again.lines.map Text.trim = new.lines.map Text.trim) := by
  cases shaped with
  | @literal n u sound =>
    obtain ⟨raw, q', again, quote, placed, same⟩ :=
      delimit_again tidy hp sound.marks shaped' kind marks text
    refine ⟨raw, again, ?_, same, fun h => by cases h⟩
    rw [place, kind, quote]
    exact placed
  | @block n x body =>
    have raw : f'.raw = new := by
      cases shaped' with
      | literal => cases kind
      | block => exact text
    obtain ⟨form, again, placed, same, trimmed⟩ := blockLines_again tidy hp raw
    refine ⟨form, again, ?_, same, fun _ => trimmed⟩
    rw [place, kind]
    exact placed

end Place

/-! ## The same formatted text of what it was put in -/

theorem flat_of_place (hp : place c buffer f formatted sql = .ok new) :
    sql.count '\n' ≤ formatted.count '\n' := by
  have lines {ls : List Line} (h : sqlLines (Dialect.ofName c.dialect) formatted sql = some ls) :=
    Nat.le_of_eq (count_of_sqlLines h)
  unfold place at hp
  split at hp
  · obtain ⟨-, -, -, -, ⟨none, -⟩ | ⟨-, ls, hs, -⟩⟩ := delimit_cases hp
    · rw [List.count_eq_zero.2 none]
      exact Nat.zero_le _
    · exact lines hs
  · cases hp
  · obtain ⟨ls, hs, -, -⟩ := blockLines_cases hp
    exact lines hs

section Formats
variable (h : Formats clauses c f formatted sql)
  (whole : f.interpolated = true → ∀ m, mask f.raw = some m →
    unmask m.text m.placeholders = some f.raw)
include h whole

theorem tidy_of_formats (flat : sql.count '\n' ≤ formatted.count '\n') :
    Text.tidyFrom false sql = true := by
  obtain ⟨m, hm, hf, hs⟩ := h
  have tidy := Formatter.tidy_clauses hf
  unfold masked at hm
  split at hm
  · next interpolated =>
    rwa [Mask.tidyFrom_unmask hm (whole interpolated m hm) (Formatter.respaced_clauses hf) hs flat]
  · cases hm
    rw [Mask.unmask_nil] at hs
    cases hs
    exact tidy

/-- Formatted text is what formatting makes of it again, with blanks for its line breaks and more
blanks around. -/
theorem formats_again {g x g' : Text} (flat : sql.count '\n' ≤ formatted.count '\n')
    (interpolated : f'.interpolated = f.interpolated) (raw : f'.raw = g ++ (x ++ g'))
    (hg : ∀ c ∈ g, isBlank c = true) (hg' : ∀ c ∈ g', isBlank c = true) (hx : Rebroken sql x) :
    Formats clauses c f' formatted sql := by
  obtain ⟨m, hm, hf, hs⟩ := h
  unfold masked at hm
  split at hm
  · next hi =>
    obtain ⟨m', hm', placeholders, words⟩ := Mask.exists_mask_eq hm (whole hi m hm)
      (Formatter.respaced_clauses hf) hs flat hx hg hg'
    refine ⟨m', ?_, Formatter.clauses_of_words hf words, by rw [placeholders, hs]⟩
    rw [masked, interpolated, if_pos hi, raw, hm']
  · next hi =>
    cases hm
    rw [Mask.unmask_nil] at hs
    cases hs
    refine ⟨{ text := f'.raw }, ?_, Formatter.clauses_of_words hf ?_, Mask.unmask_nil _⟩
    · rw [masked, interpolated, if_neg hi]
    · dsimp only
      rw [raw, Text.words_blanks_append hg, Text.words_append_blanks hg']
      exact hx.words_eq []

end Formats

/-! ## The second pass -/

section Again
open Splice
variable {shift : Int}

theorem lineTexts_of_formats (h : Formats clauses c f formatted sql)
    (whole : f.interpolated = true → ∀ m, mask f.raw = some m →
      unmask m.text m.placeholders = some f.raw) :
    ∀ ls, sqlLines (Dialect.ofName c.dialect) formatted sql = some ls →
      Text.tidyFrom false sql = true := fun _ hs =>
  tidy_of_formats h whole (Nat.le_of_eq (count_of_sqlLines hs))

/-- A fragment that kept its text is the same fragment. -/
theorem same_of_text (shaped : Shaped l f) (shaped' : Shaped l f') (kind : f'.kind = f.kind)
    (marks : f'.marks = f.marks) (text : f'.text = f.text) :
    f'.quote = f.quote ∧ f'.raw = f.raw := by
  cases shaped with
  | @literal n u sound =>
    have sound' : Literal.Sound ⟨f'.marks, u.quote, u.body⟩ := ⟨marks ▸ sound.marks, sound.body⟩
    refine Fragment.eq_of_literal shaped' kind sound' ?_
    rw [text, marks]
    rfl
  | block =>
    cases shaped' with
    | literal => cases kind
    | block => exact ⟨rfl, text⟩

section Pass
variable (moved : Relocated (standing clauses c buffer) buffer f shift buffer' f')
  (shaped : Shaped l f) (shaped' : Shaped l f')
  (whole : f.interpolated = true → ∀ m, mask f.raw = some m →
    unmask m.text m.placeholders = some f.raw)
include moved shaped shaped' whole

/-- The text that was put in place of a fragment is what the second pass puts there too, if it lays
the fragment out alike. -/
theorem not_replaced_again_of_place {text : Text} (h : Formats clauses c f formatted sql)
    (hp : place c buffer f formatted sql = .ok text) :
    ((∃ e, replacement clauses c buffer' f' = .error e) ↔
      SameLayout c buffer f buffer' f' formatted sql) ∧
    ∀ new, replacement clauses c buffer' f' = .ok new → f.kind = .block →
      new.lines.map Text.trim = f'.raw.lines.map Text.trim := by
  have stands := standing_of_place h hp
  have put : f'.text = text := moved.reads.trans stands
  obtain ⟨⟨g, x, g', raw, hg, hg', hx⟩, again, hp', same, trimmed⟩ :=
    place_again buffer' (lineTexts_of_formats h whole) hp shaped shaped' moved.kind moved.marks put
  have h' := formats_again h whole (flat_of_place hp) moved.interpolated raw hg hg' hx
  have slice : buffer'.slice f'.span = text := moved.text.trans stands
  refine ⟨?_, ?_⟩
  · rw [not_replaced_of_place h' hp', slice, same]
  · intro new hnew block
    obtain ⟨formatted', sql', hf, hp'', -⟩ := replacement_eq_ok_iff_formats.1 hnew
    obtain ⟨rfl, rfl⟩ := h'.unique hf
    cases hp'.symm.trans hp''
    have own : f'.raw = text := by
      cases shaped' with
      | literal => cases moved.kind.trans block
      | block => exact put
    rw [own]
    exact trimmed block

/-- What could not be put in place cannot be put there by the second pass. -/
theorem not_replaced_again_of_not_placed (none : ¬∃ formatted sql new,
      Formats clauses c f formatted sql ∧ place c buffer f formatted sql = .ok new) :
    ∃ e, replacement clauses c buffer' f' = .error e := by
  have kept : f'.text = f.text :=
    (moved.reads.trans (standing_of_not_placed none)).trans moved.own
  obtain ⟨quote, raw⟩ := same_of_text shaped shaped' moved.kind moved.marks kept
  refine not_replaced_of_error fun formatted sql h' => ?_
  have h : Formats clauses c f formatted sql := by
    obtain ⟨m, hm, rest⟩ := h'
    exact ⟨m, by rwa [masked, moved.interpolated, raw] at hm, rest⟩
  cases hp : place c buffer f formatted sql with
  | ok text => exact absurd ⟨formatted, sql, text, h, hp⟩ none
  | error e => exact place_error (lineTexts_of_formats h whole) hp moved.kind quote

/-- A fragment is left alone by the second pass exactly when it is laid out as it was by the first
one, if that put formatted text in its place at all. -/
theorem not_replaced_again :
    ((∃ e, replacement clauses c buffer' f' = .error e) ↔
      ∀ formatted sql text, Formats clauses c f formatted sql →
        place c buffer f formatted sql = .ok text →
        SameLayout c buffer f buffer' f' formatted sql) ∧
    ∀ new, replacement clauses c buffer' f' = .ok new → f.kind = .block →
      new.lines.map Text.trim = f'.raw.lines.map Text.trim := by
  by_cases placed : ∃ formatted sql text, Formats clauses c f formatted sql ∧
      place c buffer f formatted sql = .ok text
  · obtain ⟨formatted, sql, text, h, hp⟩ := placed
    obtain ⟨same, lines⟩ := not_replaced_again_of_place moved shaped shaped' whole h hp
    refine ⟨same.trans ⟨?_, fun all => all formatted sql text h hp⟩, lines⟩
    intro alike formatted' sql' text' hf _
    obtain ⟨rfl, rfl⟩ := h.unique hf
    exact alike
  · have none := not_replaced_again_of_not_placed moved shaped shaped' whole placed
    refine ⟨iff_of_true none fun formatted sql text h hp => absurd ⟨_, _, _, h, hp⟩ placed, ?_⟩
    obtain ⟨e, he⟩ := none
    intro new hnew
    rw [he] at hnew
    cases hnew

end Pass

/-- Formatted lines of a block are not empty. -/
theorem block_ne_nil (shaped : Shaped l f) (block : f.kind = .block)
    (hr : replacement clauses c buffer f = .ok new) : new ≠ [] := by
  obtain ⟨formatted, sql, h, hp, -⟩ := replacement_eq_ok_iff_formats.1 hr
  cases shaped with
  | literal => cases block
  | block n body =>
    have tidy := lineTexts_of_formats h (by simp [Fragment.ofBlock])
    have hp : blockLines c buffer _ formatted sql = .ok new := hp
    rw [blockLines_lines tidy] at hp
    cases hs : sqlLines (Dialect.ofName c.dialect) formatted sql with
    | none => rw [hs] at hp; cases hp
    | some ls =>
      rw [hs] at hp
      cases hp
      have bare (l : Line) : ∃ g, l.text = g ++ l.text ∧ ∀ x ∈ g, isBlank x = true :=
        ⟨[], rfl, by simp⟩
      obtain ⟨g, x, whole, -, rebroken⟩ :=
        rebroken_joinLines (lineBreak_isBreak buffer _) bare (sqlLines_text (tidy ls hs) hs)
      intro none
      obtain ⟨-, rfl⟩ := List.append_eq_nil_iff.1 (whole.symm.trans none)
      have empty := tidy ls hs
      rw [rebroken.eq_nil] at empty
      cases empty

end Again

open Splice in
/-- Let names and markers be plain, no marker stand among the formatted lines of a block, and masks
give back what they masked. Then a second pass returns the buffer that the first one left behind,
unchanged, exactly when every fragment whose formatted text was put in place is laid out there as
it was in the buffer before. -/
theorem transform_stable_iff (valid : c.fault? = none) (plain : (Locator.ofConfig c).Plain)
    (blocks : ∀ f ∈ (Locator.ofConfig c).locate buffer, f.kind = .block →
      ∀ new, replacement clauses c buffer f = .ok new →
        ∀ line ∈ new.lines, line.trim ≠ (Locator.ofConfig c).marker)
    (whole : ∀ f ∈ (Locator.ofConfig c).locate buffer, f.interpolated = true →
      ∀ m, mask f.raw = some m → unmask m.text m.placeholders = some f.raw) :
    ((transform clauses c (transform clauses c buffer).text).text =
          (transform clauses c buffer).text ∧
        (transform clauses c (transform clauses c buffer).text).changed = false) ↔
      ∀ (k : Nat) f f', ((Locator.ofConfig c).locate buffer)[k]? = some f →
        ((Locator.ofConfig c).locate (transform clauses c buffer).text)[k]? = some f' →
        ∀ formatted sql text, Formats clauses c f formatted sql →
          place c buffer f formatted sql = .ok text →
          SameLayout c buffer f (transform clauses c buffer).text f' formatted sql := by
  have first : ∀ f ∈ (Locator.ofConfig c).locate buffer, f.kind = .block →
      ∀ new, replacement clauses c buffer f = .ok new →
        new ≠ [] ∧ ∀ line ∈ new.lines, line.trim ≠ (Locator.ofConfig c).marker :=
    fun f hf kind new hr =>
      ⟨block_ne_nil (Locator.shaped_of_locate hf) kind hr, blocks f hf kind new hr⟩
  obtain ⟨moved, -⟩ := transform_spec valid plain first
  generalize (transform clauses c buffer).text = t at *
  have lengths := length_of_moved moved
  have again (k : Nat) (f f' : Fragment) (hf : ((Locator.ofConfig c).locate buffer)[k]? = some f)
      (hf' : ((Locator.ofConfig c).locate t)[k]? = some f') :=
    not_replaced_again (relocated_of_moved (u := []) (v := []) moved k hf hf')
      (Locator.shaped_of_locate (List.mem_of_getElem? hf))
      (Locator.shaped_of_locate (List.mem_of_getElem? hf'))
      (whole f (List.mem_of_getElem? hf))
  have partner {k : Nat} {f' : Fragment} (hf' : ((Locator.ofConfig c).locate t)[k]? = some f') :
      ∃ f, ((Locator.ofConfig c).locate buffer)[k]? = some f := by
    obtain ⟨hk, -⟩ := List.getElem?_eq_some_iff.1 hf'
    exact ⟨_, List.getElem?_eq_getElem (lengths ▸ hk)⟩
  have second : ∀ f' ∈ (Locator.ofConfig c).locate t, f'.kind = .block →
      ∀ new, replacement clauses c t f' = .ok new →
        new ≠ [] ∧ ∀ line ∈ new.lines, line.trim ≠ (Locator.ofConfig c).marker := by
    intro f' hf' kind new hr
    have shaped' := Locator.shaped_of_locate hf'
    obtain ⟨k, hk⟩ := List.getElem?_of_mem hf'
    obtain ⟨f, hf⟩ := partner hk
    have same := (relocated_of_moved (u := []) (v := []) moved k hf hk).kind
    have trimmed := (again k f f' hf hk).2 new hr (same.symm.trans kind)
    refine ⟨block_ne_nil shaped' kind hr, fun line hl => ?_⟩
    cases shaped' with
    | literal => cases kind
    | block n body =>
      obtain ⟨y, hy, ht⟩ := List.mem_map.1 (trimmed ▸ List.mem_map_of_mem hl)
      exact ht ▸ Locator.trim_ne_marker (body y hy) plain.marker_ne_nil
  obtain ⟨-, quiet⟩ := transform_spec valid plain second
  calc ((transform clauses c t).text = t ∧ (transform clauses c t).changed = false)
      ↔ (transform clauses c t).changed = false :=
        ⟨And.right, fun h => ⟨text_of_not_changed h, h⟩⟩
    _ ↔ ∀ f' ∈ (Locator.ofConfig c).locate t, ∃ e, replacement clauses c t f' = .error e := quiet
    _ ↔ _ := by
      constructor
      · intro all k f f' hf hf'
        exact (again k f f' hf hf').1.1 (all f' (List.mem_of_getElem? hf'))
      · intro all f' hm
        obtain ⟨k, hf'⟩ := List.getElem?_of_mem hm
        obtain ⟨f, hf⟩ := partner hf'
        exact (again k f f' hf hf').1.2 (all k f f' hf hf')

end

/-- A call in an indented line and a block. -/
def indented : Text := " sql(f\"select {a} from t\")\n%%sql\nx from t".toList

def indentedCall : Fragment := .ofLiteral 5 ⟨['f'], .double, "select {a} from t".toList⟩

def indentedBlock : Fragment := .ofBlock 33 "x from t".toList

theorem locate_indented : (Locator.ofConfig {}).locate indented = [indentedCall, indentedBlock] := by
  with_unfolding_all decide

theorem transform_indented : transform clauses {} indented =
    { text := " sql(f\"\"\"\n     SELECT {a}\n     FROM t\n \"\"\")\n%%sql\nx\nFROM t".toList
      changed := true, candidates := 2, replaced := 2 } := by
  with_unfolding_all decide

/-- Both come out on several lines and are laid out there as they were before. -/
theorem transform_stable_indented :
    (transform clauses {} indented).changed = true ∧
      (transform clauses {} (transform clauses {} indented).text).changed = false := by
  have valid : ({} : Config).fault? = none := by decide
  have names : Locator.ofConfig {} = ⟨"sql".toList, "%%sql".toList⟩ := by decide
  have plain : (Locator.ofConfig {}).Plain := by
    rw [names]
    constructor <;> simp [isQuote]
  have blocks : ∀ f ∈ (Locator.ofConfig {}).locate indented, f.kind = .block →
      ∀ new, replacement clauses {} indented f = .ok new →
        ∀ line ∈ new.lines, line.trim ≠ (Locator.ofConfig {}).marker := by
    rw [locate_indented]
    intro f hf kind new hnew
    rcases List.mem_cons.1 hf with rfl | hf
    · cases kind
    · cases List.mem_singleton.1 hf
      have replaced : replacement clauses {} indented indentedBlock = .ok "x\nFROM t".toList := by
        with_unfolding_all decide
      cases replaced.symm.trans hnew
      rw [names]
      decide
  have whole : ∀ f ∈ (Locator.ofConfig {}).locate indented, f.interpolated = true →
      ∀ m, mask f.raw = some m → unmask m.text m.placeholders = some f.raw := by
    rw [locate_indented]
    intro f hf interpolated m hm
    rcases List.mem_cons.1 hf with rfl | hf
    · have masked : mask indentedCall.raw = some ⟨"select __ESQL_MASK_0__ from t".toList,
          [⟨"__ESQL_MASK_0__".toList, "{a}".toList⟩]⟩ := by
        with_unfolding_all decide
      rw [← Option.some.inj (masked.symm.trans hm)]
      with_unfolding_all decide
    · cases List.mem_singleton.1 hf
      cases interpolated
  refine ⟨by rw [transform_indented], ((transform_stable_iff valid plain blocks whole).2 ?_).2⟩
  have again : (Locator.ofConfig {}).locate
      " sql(f\"\"\"\n     SELECT {a}\n     FROM t\n \"\"\")\n%%sql\nx\nFROM t".toList =
      [.ofLiteral 5 ⟨['f'], .tripleDouble, "\n     SELECT {a}\n     FROM t\n ".toList⟩,
        .ofBlock 50 "x\nFROM t".toList] := by
    with_unfolding_all decide
  rw [locate_indented, transform_indented]
  dsimp only
  rw [again]
  intro k f f' hf hf' formatted sql text _ _
  cases k with
  | zero =>
    cases hf
    cases hf'
    exact fun _ => by decide
  | succ k =>
    cases k with
    | zero =>
      cases hf
      cases hf'
      intro _ _ _
      decide
    | succ => cases hf

/-- Two calls, the second one on a line that begins inside the literal of the first one. -/
def shared : Text := " sql(\"\"\"\nx\"\"\"), sql(\"y from t\")\n".toList

/-- The first literal comes out on one line. That line now begins with a blank, which the lines laid
out for the second call do not. -/
def unshared : Text := " sql(\"\"\"x\"\"\"), sql(\"\"\"\n    y\n    FROM t\n\"\"\")\n".toList

theorem transform_shared : (transform clauses {} shared).text = unshared := by
  with_unfolding_all decide

/-- The second pass indents these lines, so it changes what the first one has made. -/
theorem transform_unstable_shared :
    ({} : Config).fault? = none ∧
      (transform clauses {} (transform clauses {} shared).text).changed = true := by
  rw [transform_shared]
  with_unfolding_all decide

end HostSql
