import HostSql.Host.Literal

/-! Interpolated expressions are taken out of a text before it is formatted and put back after. Each
stands as an identifier in the meantime, which has to come through exactly once. -/
namespace HostSql

/-- An identifier and the expression that it stands for. -/
structure Placeholder where
  token : Text
  expression : Text
deriving DecidableEq, Repr

structure Masked where
  text : Text
  placeholders : List Placeholder := []
deriving DecidableEq, Repr

namespace Mask

/-- The text up to the brace that closes the expression, and what follows it. Braces nest, and
those between two equal quotes do not count. -/
def closing : Nat → Option Char → Text → Option (Text × Text)
  | _, _, [] => none
  | depth, some q, c :: t =>
    (closing depth (if c = q then none else some q) t).map fun (e, rest) => (c :: e, rest)
  | depth, none, c :: t =>
    if c = '}' then
      if depth ≤ 1 then some ([c], t)
      else (closing (depth - 1) none t).map fun (e, rest) => (c :: e, rest)
    else
      let depth := if c = '{' then depth + 1 else depth
      let quoted := if isQuote c then some c else none
      (closing depth quoted t).map fun (e, rest) => (c :: e, rest)

/-- The expression at the front of a text that starts with a brace, and what follows it. -/
def expression? (t : Text) : Option (Text × Text) := closing 0 none t

theorem append_of_closing {depth : Nat} {quoted : Option Char} {t e rest : Text}
    (h : closing depth quoted t = some (e, rest)) : t = e ++ rest ∧ e ≠ [] := by
  fun_induction closing depth quoted t generalizing e with
  | case1 => cases h
  | case2 depth q c t ih =>
    obtain ⟨⟨e', rest'⟩, hc, he⟩ := Option.map_eq_some_iff.1 h
    cases he
    simp [(ih hc).1]
  | case3 depth t hd => cases h; simp
  | case4 depth t hd ih =>
    obtain ⟨⟨e', rest'⟩, hc, he⟩ := Option.map_eq_some_iff.1 h
    cases he
    simp [(ih hc).1]
  | case5 =>
    rename_i ih
    obtain ⟨⟨e', rest'⟩, hc, he⟩ := Option.map_eq_some_iff.1 h
    cases he
    simp [(ih hc).1]

/-- The text before the first expression, then each expression with the text after it. A doubled
brace is text; so is a brace that nothing closes, with all that follows it. -/
def split (t : Text) : Text × List (Text × Text) :=
  match t with
  | [] => ([], [])
  | '{' :: '{' :: t =>
    let (lead, parts) := split t
    ('{' :: '{' :: lead, parts)
  | '}' :: '}' :: t =>
    let (lead, parts) := split t
    ('}' :: '}' :: lead, parts)
  | '{' :: t =>
    match _h : expression? ('{' :: t) with
    | none => ('{' :: t, [])
    | some (e, rest) =>
      let (lead, parts) := split rest
      ([], (e, lead) :: parts)
  | c :: t =>
    let (lead, parts) := split t
    (c :: lead, parts)
termination_by t.length
decreasing_by
  all_goals simp only [List.length_cons]
  · omega
  · omega
  · have whole := append_of_closing _h
    have pos := List.length_pos_iff.2 whole.2
    have sum := congrArg List.length whole.1
    simp only [List.length_cons, List.length_append] at sum
    omega
  · omega

def marker : Text := ['_', '_', 'E', 'S', 'Q', 'L', '_', 'M', 'A', 'S', 'K', '_']

/-- The identifier with number `n`. -/
def token (n : Nat) : Text := marker ++ Nat.toDigits 10 n ++ ['_', '_']

/-- The least number from `n` on whose identifier does not stand in `raw`. A text has room for
fewer identifiers than it has characters, so the search finds one. -/
def fresh (raw : Text) (n : Nat) : Nat :=
  ((List.range' n (raw.length + 1)).find? fun k => !(token k).occursIn raw).getD n

/-- Identifiers for the expressions in turn, the first with a number not below `n`. -/
def number (raw : Text) : Nat → List Text → List Placeholder
  | _, [] => []
  | n, e :: es =>
    let k := fresh raw n
    ⟨token k, e⟩ :: number raw (k + 1) es

/-- The texts around the expressions with the identifiers in between. -/
def join (lead : Text) (placeholders : List Placeholder) (texts : List Text) : Text :=
  lead ++ (placeholders.zipWith (fun p t => p.token ++ t) texts).flatten

end Mask

/-- The text with an identifier in place of each expression; nothing if an identifier and the text
around it make up a second occurrence. -/
def mask (raw : Text) : Option Masked :=
  let (lead, parts) := Mask.split raw
  let placeholders := Mask.number raw 0 (parts.map (·.1))
  let text := Mask.join lead placeholders (parts.map (·.2))
  if placeholders.all fun p => (Text.splitOnly? p.token text).isSome then
    some { text, placeholders }
  else none

/-- Where an identifier was found, counted in characters. -/
structure Mask.Hit where
  start : Nat
  placeholder : Placeholder

/-- Puts the expressions back into the text that starts at character `start`. -/
def Mask.restore : Nat → Text → List Mask.Hit → Option Text
  | _, t, [] => some t
  | start, t, hit :: hits =>
    if hit.start < start then none
    else
      let gap := hit.start - start
      let width := hit.placeholder.token.length
      (restore (hit.start + width) (t.drop (gap + width)) hits).map
        (t.take gap ++ hit.placeholder.expression ++ ·)

/-- The formatted text with the expressions in place of their identifiers; nothing unless each
identifier occurs exactly once and no two of them overlap. -/
def unmask (formatted : Text) (placeholders : List Placeholder) : Option Text := do
  let hits ← placeholders.mapM fun p =>
    (Text.splitOnly? p.token formatted).map fun (before, _) => (⟨before.length, p⟩ : Mask.Hit)
  Mask.restore 0 formatted (hits.mergeSort fun a b => a.start ≤ b.start)

end HostSql
