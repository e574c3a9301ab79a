import HostSql.Config
import HostSql.Host.Fragment

/-! Locating the SQL in host source. A cursor moves over the text in small steps, each taken in one
of five phases; a literal, a block of lines and a call with its argument are each passed in one
step. Every step moves the cursor or enters a lower phase, so the run ends. -/
namespace HostSql

/-- A place in a text: what lies behind it, nearest character first, and what lies ahead. -/
structure Cursor where
  behind : Text
  ahead : Text
deriving DecidableEq, Repr

namespace Cursor

def atStart (t : Text) : Cursor := ⟨[], t⟩

def offset (k : Cursor) : Nat := Text.size k.behind

def skip (k : Cursor) (n : Nat) : Cursor := ⟨(k.ahead.take n).reverse ++ k.behind, k.ahead.drop n⟩

def followsName (k : Cursor) : Bool := k.behind.head?.any isNameChar

end Cursor

/-- Why a call of the SQL function holds no fragment. -/
inductive Refusal where
  /-- The name is not followed by an opening parenthesis. -/
  | notCalled
  | notLiteral
  | bytesLiteral
  | unterminated
  | extraArguments
deriving DecidableEq, Repr

inductive Finding where
  | fragment (f : Fragment)
  | refused (offset : Nat) (reason : Refusal)
deriving DecidableEq, Repr

/-- What the next step reads. -/
inductive Phase where
  | lineStart
  | code
  | comment
  | literal
  | block
deriving DecidableEq, Repr

/-- The order in which phases are entered without moving. -/
def Phase.rank : Phase → Nat
  | block => 3
  | lineStart => 2
  | code => 1
  | comment | literal => 0

theorem Phase.rank_lt (p : Phase) : p.rank < 4 := by
  cases p <;> decide

structure Step where
  phase : Phase
  cursor : Cursor
  found : Option Finding := none

/-- The name of the call and the line of the marker, both without blanks around them. -/
structure Locator where
  callName : Text
  marker : Text
deriving DecidableEq, Repr

namespace Locator

def of (callName marker : Text) : Locator := ⟨callName.trim, marker.trim⟩

def ofConfig (c : Config) : Locator := of c.callName.toList c.magicMarker.toList

/-- Blanks between the tokens of a call. -/
def isGap (c : Char) : Bool := c == ' ' || c == '\t' || c == '\r' || c == '\n'

def line (t : Text) : Text := t.takeWhile (· != '\n')

def isMarkerLine (l : Locator) (line : Text) : Bool := !l.marker.isEmpty && line.trim == l.marker

/-- What follows the name of the call, if the text starts with that whole name. -/
def afterName? (l : Locator) (t : Text) : Option Text :=
  if l.callName.isEmpty then none
  else match Text.strip? l.callName t with
    | some rest => if rest.head?.any isNameChar then none else some rest
    | none => none

/-- What may follow the argument: one comma at most, then the closing parenthesis. -/
def closesCall (t : Text) : Bool :=
  match t.dropWhile isGap with
  | ',' :: t => (t.dropWhile isGap).head? == some ')'
  | ')' :: _ => true
  | _ => false

/-- The argument of a call, read from behind its name: the gap before the literal, and the
literal. -/
def argument (t : Text) : Except Refusal (Text × Literal) :=
  let blanks := t.takeWhile isIndent
  match t.drop blanks.length with
  | '(' :: inner =>
    let gap := inner.takeWhile isGap
    let opened := inner.drop gap.length
    match Literal.marks? opened with
    | none => .error .notLiteral
    | some marks =>
      if Literal.marksMeanBytes marks then .error .bytesLiteral
      else match Literal.read opened with
        | .unclosed _ => .error .unterminated
        | .closed literal rest =>
          if closesCall rest then .ok (blanks ++ '(' :: gap, literal) else .error .extraArguments
  | _ => .error .notCalled

def atLineStart (l : Locator) (k : Cursor) : Step :=
  let line := line k.ahead
  if l.isMarkerLine line then { phase := .block, cursor := k.skip (line.length + 1) }
  else { phase := .code, cursor := k }

/-- A call at the cursor, `rest` following its name. -/
def atCall (l : Locator) (k : Cursor) (rest : Text) : Step :=
  match argument rest with
  | .ok (gap, literal) =>
    let opened := k.skip (l.callName.length + gap.length)
    { phase := .code
      cursor := opened.skip literal.text.length
      found := some (.fragment (.ofLiteral opened.offset literal)) }
  | .error reason =>
    { phase := .code
      cursor := k.skip l.callName.length
      found := if reason = .notCalled then none else some (.refused k.offset reason) }

def inCode (l : Locator) (k : Cursor) : Step :=
  match k.ahead with
  | [] => { phase := .code, cursor := k }
  | c :: t =>
    if c = '\n' then { phase := .lineStart, cursor := k.skip 1 }
    else if c = '#' then { phase := .comment, cursor := k }
    else if isQuote c then { phase := .literal, cursor := k }
    else if isNameChar c && !k.followsName then
      if (Literal.marks? (c :: t)).any (!·.isEmpty) then { phase := .literal, cursor := k }
      else match l.afterName? (c :: t) with
        | some rest => l.atCall k rest
        | none => { phase := .code, cursor := k.skip (1 + (t.takeWhile isNameChar).length) }
    else { phase := .code, cursor := k.skip 1 }

/-- The sign that opens the comment and the rest of its line. -/
def inComment (k : Cursor) : Step :=
  { phase := .code, cursor := k.skip (1 + (line (k.ahead.drop 1)).length) }

def inLiteral (k : Cursor) : Step :=
  match Literal.read k.ahead with
  | .closed literal _ => { phase := .code, cursor := k.skip literal.text.length }
  | .unclosed rest => { phase := .code, cursor := k.skip (k.ahead.length - rest.length) }

def continuesBlock (l : Locator) (line : Text) : Bool :=
  !Text.isBlankLine line && !l.isMarkerLine line

/-- Characters that lines take with their line breaks. -/
def extent (lines : List Text) : Nat := (lines.map (·.length + 1)).foldr (· + ·) 0

/-- A carriage return before the line break stays outside the block. -/
def withoutReturn (t : Text) : Text := if t.getLast? = some '\r' then t.dropLast else t

/-- The lines after a marker: blank ones are passed, and those up to the next blank line, marker or
end are the block. -/
def inBlock (l : Locator) (k : Cursor) : Step :=
  let lines := Text.lines k.ahead
  let blank := lines.takeWhile Text.isBlankLine
  let body := (lines.dropWhile Text.isBlankLine).takeWhile l.continuesBlock
  let opened := k.skip (extent blank)
  { phase := .lineStart
    cursor := opened.skip (extent body)
    found :=
      if body.isEmpty then none
      else some (.fragment (.ofBlock opened.offset (withoutReturn (Text.ofLines body)))) }

def step (l : Locator) : Phase → Cursor → Step
  | .lineStart, k => l.atLineStart k
  | .code, k => l.inCode k
  | .comment, k => inComment k
  | .literal, k => inLiteral k
  | .block, k => l.inBlock k

end Locator

namespace Cursor

theorem length_skip (k : Cursor) (n : Nat) :
    (k.skip n).ahead.length = k.ahead.length - n := by
  simp [skip]

theorem skip_lt {k : Cursor} {n : Nat} (h : k.ahead ≠ []) (hn : 0 < n) :
    (k.skip n).ahead.length < k.ahead.length := by
  have := List.length_pos_iff.2 h
  rw [length_skip]
  omega

end Cursor

namespace Literal

theorem length_of_close_error {q : Quote} {t rest : Text} (h : close q t = .error rest) :
    rest.length ≤ t.length := by
  fun_induction close q t with
  | case1 => cases h; exact Nat.le_refl _
  | case2 => cases h; exact Nat.zero_le _
  | case3 e t ih =>
    cases hc : close q t with
    | ok x => rw [hc] at h; cases h
    | error r =>
      rw [hc] at h
      cases h
      have := ih hc
      simp only [List.length_cons]
      omega
  | case4 c t => cases h; exact Nat.le_refl _
  | case5 c t _ _ _ rest' hs => cases h
  | case6 c t _ _ _ hs ih =>
    cases hc : close q t with
    | ok x => rw [hc] at h; cases h
    | error r =>
      rw [hc] at h
      cases h
      have := ih hc
      simp only [List.length_cons]
      omega

theorem delimiter_length_pos (q : Quote) : 0 < q.delimiter.length := by
  cases q <;> decide

theorem length_of_read_unclosed {t rest : Text} (h : read t = .unclosed rest) (ht : t ≠ []) :
    rest.length < t.length := by
  have pos := List.length_pos_iff.2 ht
  have tail : (t.drop 1).length < t.length := by rw [List.length_drop]; omega
  unfold read at h
  split at h
  · cases h; exact tail
  · dsimp only at h
    split at h
    · cases h; exact tail
    · split at h
      · cases h
      · cases h
        rename_i hc
        have := length_of_close_error hc
        have := delimiter_length_pos
        grind

end Literal

/-- The step moves on from a place, or stays there and enters a lower phase. -/
def Step.Descends (s : Step) (p : Phase) (k : Cursor) : Prop :=
  Prod.Lex (· < ·) (· < ·) (s.cursor.ahead.length, s.phase.rank) (k.ahead.length, p.rank)

namespace Step.Descends
variable {s : Step} {p : Phase} {k : Cursor}

theorem of_moves (moves : s.cursor.ahead.length < k.ahead.length) : s.Descends p k :=
  .left _ _ moves

theorem of_stays (stays : s.cursor.ahead.length ≤ k.ahead.length) (lower : s.phase.rank < p.rank) :
    s.Descends p k := by
  rcases Nat.lt_or_eq_of_le stays with hlt | heq
  · exact of_moves hlt
  · unfold Descends
    rw [heq]
    exact .right _ lower

end Step.Descends

namespace Locator

section
open Step (Descends)
variable {l : Locator} {k : Cursor} {t rest : Text}

theorem callName_pos_of_afterName? (h : l.afterName? t = some rest) : 0 < l.callName.length := by
  unfold afterName? at h
  split at h
  · cases h
  · next filled => simpa [List.length_pos_iff] using filled

theorem atCall_moves (h : k.ahead ≠ []) (name : 0 < l.callName.length) (rest : Text) :
    (l.atCall k rest).cursor.ahead.length < k.ahead.length := by
  unfold atCall
  split
  · have pos := List.length_pos_iff.2 h
    dsimp only
    rw [Cursor.length_skip, Cursor.length_skip]
    omega
  · exact Cursor.skip_lt h name

theorem inLiteral_moves (h : k.ahead ≠ []) :
    (inLiteral k).cursor.ahead.length < k.ahead.length := by
  unfold inLiteral
  split
  · next literal _ _ =>
    apply Cursor.skip_lt h
    have := Literal.delimiter_length_pos literal.quote
    simp only [Literal.text, List.length_append]
    omega
  · next rest unclosed =>
    apply Cursor.skip_lt h
    have := Literal.length_of_read_unclosed unclosed h
    omega

theorem descends_inCode (l : Locator) (h : k.ahead ≠ []) : (l.inCode k).Descends .code k := by
  have stays {q : Phase} (lower : q.rank < Phase.code.rank) : Descends ⟨q, k, none⟩ .code k :=
    .of_stays (Nat.le_refl _) lower
  unfold inCode
  split
  · next none => exact absurd none h
  · next c t ahead =>
    split
    · exact .of_moves (Cursor.skip_lt h Nat.one_pos)
    split
    · exact stays (by decide)
    split
    · exact stays (by decide)
    split
    · split
      · exact stays (by decide)
      split
      · next rest called =>
        exact .of_moves (atCall_moves h (callName_pos_of_afterName? called) rest)
      · exact .of_moves (Cursor.skip_lt h (by omega))
    · exact .of_moves (Cursor.skip_lt h Nat.one_pos)

end

/-- Every step from a place before the end moves on, or stays and enters a lower phase. -/
theorem step_decreases (l : Locator) (p : Phase) (k : Cursor) (h : k.ahead ≠ []) :
    Prod.Lex (· < ·) (· < ·)
      ((l.step p k).cursor.ahead.length, (l.step p k).phase.rank)
      (k.ahead.length, p.rank) := by
  change (l.step p k).Descends p k
  cases p with
  | lineStart =>
    unfold step atLineStart
    dsimp only
    split
    · exact .of_moves (Cursor.skip_lt h (Nat.succ_pos _))
    · exact .of_stays (Nat.le_refl _) (by decide : Phase.code.rank < Phase.lineStart.rank)
  | code => exact descends_inCode l h
  | comment => exact .of_moves (Cursor.skip_lt h (by omega))
  | literal => exact .of_moves (inLiteral_moves h)
  | block =>
    refine .of_stays ?_ (by decide : Phase.lineStart.rank < Phase.block.rank)
    simp only [step, inBlock, Cursor.length_skip]
    omega

/-- The same order as one number, by which the run evaluates. -/
theorem step_measure_lt (l : Locator) (p : Phase) (k : Cursor) (h : k.ahead ≠ []) :
    4 * (l.step p k).cursor.ahead.length + (l.step p k).phase.rank <
      4 * k.ahead.length + p.rank := by
  have bound := (l.step p k).phase.rank_lt
  cases Prod.lex_def.1 (step_decreases l p k h) with
  | inl shorter => dsimp only at shorter; omega
  | inr lower => obtain ⟨same, lower⟩ := lower; dsimp only at same lower; omega

/-- Everything that is found from a place on, in the order of the text. -/
def run (l : Locator) (p : Phase) (k : Cursor) : List Finding :=
  if _h : k.ahead = [] then []
  else
    let s := l.step p k
    s.found.toList ++ l.run s.phase s.cursor
termination_by 4 * k.ahead.length + p.rank
decreasing_by exact step_measure_lt l p k _h

def findings (l : Locator) (t : Text) : List Finding := l.run .lineStart (.atStart t)

/-- The fragments of a text in ascending order. -/
def locate (l : Locator) (t : Text) : List Fragment :=
  (l.findings t).filterMap fun
    | .fragment f => some f
    | .refused _ _ => none

end Locator
end HostSql
