import HostSql.Proofs.Host.Scan

/-! The forms that a step can have. What holds along a run is derived from them, one case for each
form, and no proof has to open the step itself. -/
namespace HostSql.Locator
open Text (written)

/-- A step from a place with `b` behind it, by the phase and the text ahead. -/
inductive Steps (l : Locator) (b : Text) : Phase → Text → Step → Prop
  | plainLine {t : Text} (plain : l.isMarkerLine (line t) = false) :
      Steps l b .lineStart t { phase := .code, cursor := ⟨b, t⟩ }
  | marker {u : Text} (t : Text) (oneLine : '\n' ∉ u) (marker : l.isMarkerLine u = true) :
      Steps l b .lineStart (u ++ '\n' :: t)
        { phase := .block, cursor := ⟨(u ++ ['\n']).reverse ++ b, t⟩ }
  | lastMarker {u : Text} (oneLine : '\n' ∉ u) (marker : l.isMarkerLine u = true) :
      Steps l b .lineStart u { phase := .block, cursor := ⟨u.reverse ++ b, []⟩ }
  | newline (t : Text) :
      Steps l b .code ('\n' :: t) { phase := .lineStart, cursor := ⟨'\n' :: b, t⟩ }
  | hash (t : Text) :
      Steps l b .code ('#' :: t) { phase := .comment, cursor := ⟨b, '#' :: t⟩ }
  | opened {t m : Text} (marks : Literal.marks? t = some m)
      (start : m ≠ [] → b.head?.any isNameChar = false) :
      Steps l b .code t { phase := .literal, cursor := ⟨b, t⟩ }
  | argument {gap w : Text} {u : Literal}
      (named : l.Named b (l.callName ++ (gap ++ (u.text ++ w))) (gap ++ (u.text ++ w)))
      (accepted : argument (gap ++ (u.text ++ w)) = .ok (gap, u)) :
      Steps l b .code (l.callName ++ (gap ++ (u.text ++ w)))
        { phase := .code
          cursor := ⟨(l.callName ++ (gap ++ u.text)).reverse ++ b, w⟩
          found := some (.fragment
            (.ofLiteral (Text.size b + Text.size (l.callName ++ gap)) u)) }
  | refused {rest : Text} {reason : Refusal} (named : l.Named b (l.callName ++ rest) rest)
      (refused : argument rest = .error reason) :
      Steps l b .code (l.callName ++ rest)
        { phase := .code
          cursor := ⟨l.callName.reverse ++ b, rest⟩
          found := if reason = .notCalled then none else some (.refused (Text.size b) reason) }
  | name {c : Char} {w t : Text} (whole : ∀ d ∈ c :: w, isNameChar d = true)
      (stop : t.head?.any isNameChar = false) (fresh : b.head?.any isNameChar = false)
      (unmarked : (Literal.marks? (c :: (w ++ t))).any (!·.isEmpty) = false)
      (other : l.afterName? (c :: (w ++ t)) = none) :
      Steps l b .code (c :: (w ++ t)) { phase := .code, cursor := ⟨(c :: w).reverse ++ b, t⟩ }
  | other {c : Char} (t : Text) (line : c ≠ '\n') (hash : c ≠ '#') (quote : isQuote c = false)
      (start : (isNameChar c && !b.head?.any isNameChar) = false) :
      Steps l b .code (c :: t) { phase := .code, cursor := ⟨c :: b, t⟩ }
  | comment (c : Char) {u t : Text} (oneLine : '\n' ∉ u) (stop : t = [] ∨ ∃ z, t = '\n' :: z) :
      Steps l b .comment (c :: (u ++ t)) { phase := .code, cursor := ⟨(c :: u).reverse ++ b, t⟩ }
  | closed {u : Literal} {t : Text} (read : Literal.read (u.text ++ t) = .closed u t) :
      Steps l b .literal (u.text ++ t) { phase := .code, cursor := ⟨u.text.reverse ++ b, t⟩ }
  | unclosed {u t : Text} (moves : u ≠ []) (read : Literal.read (u ++ t) = .unclosed t) :
      Steps l b .literal (u ++ t) { phase := .code, cursor := ⟨u.reverse ++ b, t⟩ }
  | blankRest {t : Text} (blank : ∀ x ∈ Text.lines t, Text.isBlankLine x = true) :
      Steps l b .block t { phase := .lineStart, cursor := ⟨t.reverse ++ b, []⟩ }
  | emptyBlock {ls : List Text} {t : Text}
      (blank : ∀ x ∈ ls, Text.isBlankLine x = true ∧ '\n' ∉ x)
      (solid : Text.isBlankLine (line t) = false) (stop : l.continuesBlock (line t) = false) :
      Steps l b .block (written ls ++ t)
        { phase := .lineStart, cursor := ⟨(written ls).reverse ++ b, t⟩ }
  | block {ls : List Text} {x tail : Text}
      (blank : ∀ x ∈ ls, Text.isBlankLine x = true ∧ '\n' ∉ x)
      (body : ∀ y ∈ Text.lines x, l.continuesBlock y = true)
      (stop : tail = [] ∨ ∃ t, tail = '\n' :: t ∧ l.continuesBlock (line t) = false) :
      Steps l b .block (written ls ++ (x ++ tail))
        { phase := .lineStart
          cursor := ⟨(written ls ++ (x ++ tail.take 1)).reverse ++ b, tail.drop 1⟩
          found := some (.fragment
            (.ofBlock (Text.size b + Text.size (written ls)) (withoutReturn x))) }

variable {l : Locator} {b t : Text}

theorem steps_lineStart (l : Locator) (b t : Text) :
    Steps l b .lineStart t (l.step .lineStart ⟨b, t⟩) := by
  cases marker : l.isMarkerLine (line t) with
  | false =>
    rw [step_plainLine marker]
    exact .plainLine marker
  | true =>
    rcases Text.lines_cases t with ⟨-, whole⟩ | ⟨u, w, oneLine, rfl, -⟩
    · rw [line_eq_self whole] at marker
      rw [step_lastMarker whole marker]
      exact .lastMarker whole marker
    · rw [line_append_newline oneLine] at marker
      rw [step_marker oneLine marker]
      exact .marker w oneLine marker

theorem steps_call {rest : Text} (named : l.Named b t rest) :
    Steps l b .code t (l.step .code ⟨b, t⟩) := by
  obtain ⟨rfl, -, -⟩ := append_of_afterName? named.name
  cases accepted : argument rest with
  | error reason =>
    rw [step_refused named accepted]
    exact .refused named accepted
  | ok found =>
    obtain ⟨gap, u⟩ := found
    obtain ⟨-, -, w, -, rfl, -⟩ := argument_eq_ok_iff.1 accepted
    rw [step_argument named accepted]
    exact .argument named accepted

theorem steps_code (l : Locator) (b : Text) (c : Char) (t : Text) :
    Steps l b .code (c :: t) (l.step .code ⟨b, c :: t⟩) := by
  by_cases line : c = '\n'
  · subst line
    rw [step_newline]
    exact .newline t
  by_cases hash : c = '#'
  · subst hash
    rw [step_hash]
    exact .hash t
  cases quote : isQuote c with
  | true =>
    rw [step_quote quote]
    exact .opened (Literal.marks?_eq_some_iff.2 ⟨rfl, c, t, quote, rfl⟩) (absurd rfl)
  | false =>
  cases start : isNameChar c && !b.head?.any isNameChar with
  | false =>
    rw [step_other line hash quote start]
    exact .other t line hash quote start
  | true =>
  simp only [Bool.and_eq_true, Bool.not_eq_true'] at start
  obtain ⟨hc, fresh⟩ := start
  cases marked : (Literal.marks? (c :: t)).any (!·.isEmpty) with
  | true =>
    rw [step_marked hc fresh marked]
    cases marks : Literal.marks? (c :: t) with
    | none =>
      rw [marks] at marked
      cases marked
    | some m => exact .opened marks fun _ => fresh
  | false =>
  cases called : l.afterName? (c :: t) with
  | some rest => exact steps_call ⟨called, by simpa using hc, fresh, marked⟩
  | none =>
    obtain ⟨w, z, rfl, inside, stop⟩ := Text.exists_takeWhile isNameChar t
    rw [step_name inside hc stop fresh marked called]
    exact .name (List.forall_mem_cons.2 ⟨hc, inside⟩) stop fresh marked called

theorem steps_comment (l : Locator) (b : Text) (c : Char) (t : Text) :
    Steps l b .comment (c :: t) (l.step .comment ⟨b, c :: t⟩) := by
  obtain ⟨u, w, rfl, oneLine, stop⟩ := Text.exists_line t
  rw [step_comment oneLine stop]
  exact .comment c oneLine stop

theorem steps_literal (l : Locator) (b : Text) (ht : t ≠ []) :
    Steps l b .literal t (l.step .literal ⟨b, t⟩) := by
  cases read : Literal.read t with
  | closed u w =>
    obtain ⟨-, -, rfl⟩ := Literal.read_eq_closed_iff.1 read
    rw [step_closed read]
    exact .closed read
  | unclosed w =>
    obtain ⟨u, moves, rfl, -⟩ := Literal.read_unclosed_append ht read
    rw [step_unclosed read]
    exact .unclosed moves read

theorem steps_block (l : Locator) (b t : Text) :
    Steps l b .block t (l.step .block ⟨b, t⟩) := by
  rcases block_cases l t with blank | ⟨ls, w, rfl, hl, solid, stop⟩ | ⟨ls, x, tail, rfl, hl, hx, stop⟩
  · rw [step_blankRest blank]
    exact .blankRest blank
  · rw [step_emptyBlock hl solid stop]
    exact .emptyBlock hl solid stop
  · rw [step_block hl hx stop]
    exact .block hl hx stop

/-- Every step has one of the forms. -/
theorem steps_step (l : Locator) (p : Phase) (b : Text) (ht : t ≠ []) :
    Steps l b p t (l.step p ⟨b, t⟩) := by
  obtain ⟨c, z, rfl⟩ := List.exists_cons_of_ne_nil ht
  cases p with
  | lineStart => exact steps_lineStart l b _
  | code => exact steps_code l b c z
  | comment => exact steps_comment l b c z
  | literal => exact steps_literal l b ht
  | block => exact steps_block l b _

end HostSql.Locator
