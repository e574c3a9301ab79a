import HostSql.Proofs.Host.Steps

/-! The tokens of host source as they stand when no call is looked for. Each token is a beginning of
the text that is left, and where it begins is read off the one character before it. -/
namespace HostSql

inductive HostToken where
  | comment (text : Text)
  | literal (l : Literal)
  /-- What is passed of a literal that is not complete. -/
  | unclosed (text : Text)
  | name (text : Text)
  /-- A marker line with the block behind it. -/
  | block (text : Text)
  /-- Any other character. -/
  | char (c : Char)
deriving DecidableEq, Repr

namespace HostToken
open Locator (line extent)

def text : HostToken → Text
  | comment t | unclosed t | name t | block t => t
  | literal l => l.text
  | char c => [c]

/-- The text begins with a marker line, `prev` being the character before it. -/
def opensBlock (marker : Text) (prev : Option Char) (t : Text) : Bool :=
  prev.all (· == '\n') && (⟨[], marker⟩ : Locator).isMarkerLine (line t)

/-- The text begins with a quote, or with marks that are not the end of a name. -/
def opensLiteral (prev : Option Char) (t : Text) : Bool :=
  (Literal.marks? t).any fun marks => marks.isEmpty || !prev.any isNameChar

/-- How far a block reaches behind its marker line: over blank lines and from there over the lines up
to the next blank line, marker or end. -/
def blockLength (marker t : Text) : Nat :=
  let body := ((Text.lines t).dropWhile Text.isBlankLine).takeWhile
    (⟨[], marker⟩ : Locator).continuesBlock
  extent ((Text.lines t).takeWhile Text.isBlankLine) + extent body

/-- How far the marker line that the text begins with reaches together with its block. -/
def markedLength (marker t : Text) : Nat :=
  let behind := (line t).length + 1
  behind + blockLength marker (t.drop behind)

/-- The token that the text `c :: t` begins with. -/
def first (marker : Text) (prev : Option Char) (c : Char) (t : Text) : HostToken :=
  if opensBlock marker prev (c :: t) then block ((c :: t).take (markedLength marker (c :: t)))
  else if c = '#' then comment (line (c :: t))
  else if opensLiteral prev (c :: t) then
    match Literal.read (c :: t) with
    | .closed l _ => literal l
    | .unclosed rest => unclosed ((c :: t).take ((c :: t).length - rest.length))
  else if isNameChar c then name ((c :: t).takeWhile isNameChar)
  else char c

section
variable {marker t : Text} {prev : Option Char} {c : Char}

theorem first_plain (plain : opensBlock marker prev (c :: t) = false) :
    first marker prev c t =
      if c = '#' then comment (line (c :: t))
      else if opensLiteral prev (c :: t) then
        match Literal.read (c :: t) with
        | .closed l _ => literal l
        | .unclosed rest => unclosed ((c :: t).take ((c :: t).length - rest.length))
      else if isNameChar c then name ((c :: t).takeWhile isNameChar)
      else char c := by
  rw [first, plain]
  rfl

/-- A token takes something of the text that it begins. -/
theorem text_first (marker : Text) (prev : Option Char) (c : Char) (t : Text) :
    ∃ rest, c :: t = (first marker prev c t).text ++ rest ∧ rest.length ≤ t.length := by
  have taken {n : Nat} (hn : 0 < n) :
      ∃ rest, c :: t = (c :: t).take n ++ rest ∧ rest.length ≤ t.length := by
    refine ⟨(c :: t).drop n, (List.take_append_drop n (c :: t)).symm, ?_⟩
    rw [List.length_drop, List.length_cons]
    omega
  have passed {p : Char → Bool} (hc : p c = true) :
      ∃ rest, c :: t = (c :: t).takeWhile p ++ rest ∧ rest.length ≤ t.length := by
    refine ⟨t.dropWhile p, ?_, (List.dropWhile_suffix p).length_le⟩
    rw [List.takeWhile_cons_of_pos hc, List.cons_append, List.takeWhile_append_dropWhile]
  unfold first
  split
  · exact taken (by rw [markedLength]; omega)
  split
  · next hash =>
    subst hash
    exact passed (p := (· != '\n')) rfl
  split
  · split
    · next l rest read =>
      obtain ⟨-, -, whole⟩ := Literal.read_eq_closed_iff.1 read
      refine ⟨rest, whole, ?_⟩
      have pos := Literal.delimiter_length_pos l.quote
      have length := congrArg List.length whole
      simp only [Literal.text, List.length_append, List.length_cons] at length
      omega
    · next rest read =>
      have moves := Literal.length_of_read_unclosed read (List.cons_ne_nil c t)
      exact taken (by omega)
  split
  · next hc => exact passed hc
  · exact ⟨t, rfl, Nat.le_refl _⟩

end

/-- The tokens of a text that stands behind `prev`. -/
def tokens (marker : Text) (prev : Option Char) : Text → List HostToken
  | [] => []
  | c :: t =>
    let x := first marker prev c t
    x :: tokens marker x.text.getLast? ((c :: t).drop x.text.length)
termination_by t => t.length
decreasing_by
  obtain ⟨rest, whole, shorter⟩ := text_first marker prev c t
  rw [whole, List.drop_left, ← whole, List.length_cons]
  omega

section
variable {marker t u rest : Text} {prev : Option Char} {c : Char} {x : HostToken} {l : Literal}

@[simp] theorem tokens_nil (marker : Text) (prev : Option Char) : tokens marker prev [] = [] := by
  rw [tokens]

theorem tokens_of_first (h : first marker prev c t = x) (whole : c :: t = x.text ++ rest) :
    tokens marker prev (c :: t) = x :: tokens marker x.text.getLast? rest := by
  rw [tokens, h, whole, List.drop_left]

/-- The tokens make up the text. -/
theorem flatMap_text_tokens (marker : Text) (prev : Option Char) (t : Text) :
    (tokens marker prev t).flatMap text = t := by
  cases t with
  | nil => simp
  | cons c t =>
    obtain ⟨rest, whole, shorter⟩ := text_first marker prev c t
    rw [tokens_of_first rfl whole, List.flatMap_cons, flatMap_text_tokens marker _ rest, ← whole]
termination_by t.length
decreasing_by
  rw [List.length_cons]
  omega

section Opens

/-- A marker line starts with its percent sign, blanks apart. -/
theorem head?_of_opensBlock (percent : marker.head? = some '%')
    (h : opensBlock marker prev t = true) : (t.dropWhile isBlank).head? = some '%' := by
  simp only [opensBlock, Locator.isMarkerLine, Bool.and_eq_true, beq_iff_eq] at h
  have trimmed : (line t).trim.head? = some '%' := by rw [h.2.2, percent]
  exact Text.head?_dropWhile_takeWhile (Text.head?_trim trimmed)

/-- At the break of a line, or at the end, no marker line begins. -/
theorem not_opensBlock_newline (percent : marker.head? = some '%')
    (ht : t = [] ∨ ∃ z, t = '\n' :: z) (prev : Option Char) : opensBlock marker prev t = false := by
  have empty : line t = [] := by rcases ht with rfl | ⟨z, rfl⟩ <;> rfl
  have trim : Text.trim [] = [] := rfl
  cases marker with
  | nil => cases percent
  | cons c marker => simp [opensBlock, Locator.isMarkerLine, empty, trim]

theorem not_opensBlock_behind (h : prev.all (· == '\n') = false) (marker t : Text) :
    opensBlock marker prev t = false := by
  rw [opensBlock, h]
  rfl

theorem not_opensBlock_quote (marker : Text) (l : Literal) (t : Text) :
    opensBlock marker (some l.quote.char) t = false :=
  not_opensBlock_behind (by simp [l.quote.char_ne_newline]) marker t

/-- Neither the gap before a literal nor the literal opens a block. -/
theorem not_opensBlock_opened {m : Text} (percent : marker.head? = some '%')
    (hu : ∀ c ∈ u, Locator.isGap c = true ∨ c = '(') (hm : Literal.marks? t = some m) :
    opensBlock marker prev (u ++ t) = false := by
  cases opens : opensBlock marker prev (u ++ t) with
  | false => rfl
  | true => exact absurd (head?_of_opensBlock percent opens) (Locator.not_percent_opened hu hm)

end Opens

section Forms

/-- A marker line is taken with its block. -/
theorem tokens_block (opens : opensBlock marker prev t = true) (ht : t ≠ []) :
    tokens marker prev t =
      .block (t.take (markedLength marker t)) ::
        tokens marker (t.take (markedLength marker t)).getLast? (t.drop (markedLength marker t)) := by
  obtain ⟨c, z, rfl⟩ := List.exists_cons_of_ne_nil ht
  have taken : first marker prev c z = .block ((c :: z).take (markedLength marker (c :: z))) := by
    rw [first, opens]
    rfl
  exact tokens_of_first taken (List.take_append_drop ..).symm

theorem tokens_comment (plain : opensBlock marker prev ('#' :: (u ++ t)) = false)
    (oneLine : '\n' ∉ u) (stop : t = [] ∨ ∃ z, t = '\n' :: z) :
    tokens marker prev ('#' :: (u ++ t)) =
      .comment ('#' :: u) :: tokens marker ('#' :: u).getLast? t := by
  have read : line ('#' :: (u ++ t)) = '#' :: u := by
    rcases stop with rfl | ⟨z, rfl⟩
    · rw [List.append_nil, Locator.line_eq_self (by simp [oneLine])]
    · exact Locator.line_append_newline (u := '#' :: u) (by simp [oneLine]) z
  have taken : first marker prev '#' (u ++ t) = .comment ('#' :: u) := by
    rw [first_plain plain, if_pos rfl, read]
  exact tokens_of_first taken rfl

/-- A literal that does not begin with a quote begins with a mark. -/
theorem isNameChar_of_marks? {m : Text} (quote : isQuote c = false)
    (hm : Literal.marks? (c :: t) = some m) : m ≠ [] ∧ isNameChar c = true := by
  obtain ⟨marks, q, u, hq, whole⟩ := Literal.marks?_eq_some_iff.1 hm
  cases m with
  | nil =>
    cases whole
    rw [quote] at hq
    cases hq
  | cons d m =>
    cases whole
    refine ⟨List.cons_ne_nil c m, ?_⟩
    exact Literal.isNameChar_of_isMark (Literal.isMark_of_mem marks List.mem_cons_self)

theorem marks?_cons_none (name : isNameChar c = false) (quote : isQuote c = false) (t : Text) :
    Literal.marks? (c :: t) = none := by
  cases hm : Literal.marks? (c :: t) with
  | none => rfl
  | some m =>
    have mark := (isNameChar_of_marks? quote hm).2
    rw [name] at mark
    cases mark

/-- Where a literal begins it is read, complete or not. -/
theorem first_opened {m : Text} (plain : opensBlock marker prev (c :: t) = false)
    (marks : Literal.marks? (c :: t) = some m) (start : m ≠ [] → prev.any isNameChar = false) :
    first marker prev c t =
      match Literal.read (c :: t) with
      | .closed l _ => literal l
      | .unclosed rest => unclosed ((c :: t).take ((c :: t).length - rest.length)) := by
  have hash : c ≠ '#' := by
    rintro rfl
    rw [marks?_cons_none (by decide) (by decide)] at marks
    cases marks
  have opens : opensLiteral prev (c :: t) = true := by
    rw [opensLiteral, marks]
    cases m with
    | nil => rfl
    | cons d m => simp [start (List.cons_ne_nil d m)]
  rw [first_plain plain, if_neg hash, if_pos opens]

theorem tokens_literal (plain : opensBlock marker prev (l.text ++ t) = false)
    (read : Literal.read (l.text ++ t) = .closed l t)
    (start : l.marks ≠ [] → prev.any isNameChar = false) :
    tokens marker prev (l.text ++ t) = .literal l :: tokens marker l.text.getLast? t := by
  have marks := Literal.marks?_literal (Literal.read_eq_closed_iff.1 read).1.marks t
  cases whole : l.text ++ t with
  | nil =>
    rw [whole] at marks
    cases marks
  | cons c z =>
    rw [whole] at plain read marks
    have taken : first marker prev c z = .literal l := by
      rw [first_opened plain marks start, read]
    exact tokens_of_first taken whole.symm

theorem tokens_unclosed {m : Text} (plain : opensBlock marker prev (u ++ t) = false)
    (marks : Literal.marks? (u ++ t) = some m) (start : m ≠ [] → prev.any isNameChar = false)
    (read : Literal.read (u ++ t) = .unclosed t) :
    tokens marker prev (u ++ t) = .unclosed u :: tokens marker u.getLast? t := by
  have passed : (u ++ t).take ((u ++ t).length - t.length) = u := by
    rw [List.length_append, Nat.add_sub_cancel, List.take_left]
  cases whole : u ++ t with
  | nil =>
    rw [whole] at marks
    cases marks
  | cons c z =>
    rw [whole] at plain marks read passed
    have taken : first marker prev c z = .unclosed u := by
      rw [first_opened plain marks start, read]
      dsimp only
      rw [passed]
    exact tokens_of_first taken whole.symm

/-- A name is read up to its end. -/
theorem tokens_name (plain : opensBlock marker prev (u ++ t) = false) (hu : u ≠ [])
    (names : ∀ d ∈ u, isNameChar d = true) (stop : t.head?.any isNameChar = false)
    (unmarked : (Literal.marks? (u ++ t)).any (!·.isEmpty) = false) :
    tokens marker prev (u ++ t) = .name u :: tokens marker u.getLast? t := by
  obtain ⟨c, w, rfl⟩ := List.exists_cons_of_ne_nil hu
  have name := names c List.mem_cons_self
  obtain ⟨-, hash, quote⟩ := Locator.plain_of_isNameChar name
  have none : Literal.marks? (c :: (w ++ t)) = none := by
    cases hm : Literal.marks? (c :: (w ++ t)) with
    | none => rfl
    | some m =>
      have marked := (isNameChar_of_marks? quote hm).1
      rw [List.cons_append, hm] at unmarked
      simp [marked] at unmarked
  have run : (c :: (w ++ t)).takeWhile isNameChar = c :: w := Text.takeWhile_stop names stop
  have taken : first marker prev c (w ++ t) = .name (c :: w) := by
    rw [List.cons_append] at plain
    rw [first_plain plain, if_neg hash, opensLiteral, none, run]
    simp [name]
  exact tokens_of_first taken rfl

theorem tokens_char (plain : opensBlock marker prev (c :: t) = false) (hash : c ≠ '#')
    (name : isNameChar c = false) (quote : isQuote c = false) :
    tokens marker prev (c :: t) = .char c :: tokens marker (some c) t := by
  have taken : first marker prev c t = .char c := by
    rw [first_plain plain, if_neg hash, opensLiteral, marks?_cons_none name quote]
    simp [name]
  exact tokens_of_first taken rfl

/-- From behind the name of a call to its literal every character stands alone. -/
theorem tokens_opened {m : Text} (percent : marker.head? = some '%')
    (hu : ∀ c ∈ u, Locator.isGap c = true ∨ c = '(') (hm : Literal.marks? t = some m) (b : Text) :
    tokens marker b.head? (u ++ t) = u.map char ++ tokens marker (u.reverse ++ b).head? t := by
  induction u generalizing b with
  | nil => rfl
  | cons c u ih =>
    have plain : opensBlock marker b.head? ((c :: u) ++ t) = false :=
      not_opensBlock_opened percent hu hm
    obtain ⟨hash, name, quote⟩ := Locator.plain_of_opening (hu c List.mem_cons_self)
    have more := ih (fun d hd => hu d (List.mem_cons_of_mem _ hd)) (c :: b)
    rw [List.head?_cons] at more
    rw [List.cons_append] at plain ⊢
    rw [tokens_char plain hash name quote, more]
    simp

end Forms

end
end HostToken
end HostSql
