import HostSql.Host.Literal
import HostSql.Proofs.Text.Search

/-! Reading a literal looks at nothing behind its closing delimiter, one character excepted: a quote
behind two quotes could make them a triple delimiter. So a literal reads back wherever it is put,
and text that is left unclosed stays so up to the line break that ends it. -/
namespace HostSql

theorem isQuote_iff {c : Char} : isQuote c = true ↔ c = '\'' ∨ c = '"' := by
  simp [isQuote]

theorem not_quote_of_isNameChar {c : Char} (h : isNameChar c = true) : isQuote c = false := by
  cases hq : isQuote c with
  | false => rfl
  | true => rcases isQuote_iff.1 hq with rfl | rfl <;> revert h <;> decide

namespace Quote

theorem isQuote_char (q : Quote) : isQuote q.char = true := by cases q <;> rfl

theorem char_ne_backslash (q : Quote) : q.char ≠ '\\' := by cases q <;> decide

theorem char_ne_newline (q : Quote) : q.char ≠ '\n' := by cases q <;> decide

theorem delimiter_eq_cons (q : Quote) : ∃ more, q.delimiter = q.char :: more := by
  cases q <;> exact ⟨_, rfl⟩

theorem delimiter_eq_concat (q : Quote) : ∃ more, q.delimiter = more ++ [q.char] := by
  cases q
  · exact ⟨[], rfl⟩
  · exact ⟨[], rfl⟩
  · exact ⟨['\'', '\''], rfl⟩
  · exact ⟨['"', '"'], rfl⟩

theorem delimiter_plain {q : Quote} (h : q.isTriple = false) : q.delimiter = [q.char] := by
  rw [delimiter, h]
  rfl

theorem delimiter_triple {q : Quote} (h : q.isTriple = true) :
    q.delimiter = [q.char, q.char, q.char] := by
  rw [delimiter, h]
  rfl

/-- Bodies between two of the delimiters: nothing in them closes the literal, also not together
with a part of the delimiter that stands behind them. -/
inductive Encloses (q : Quote) : Text → Prop
  | nil : Encloses q []
  | escaped (e : Char) {body : Text} (more : Encloses q body) : Encloses q ('\\' :: e :: body)
  | cons {c : Char} {body : Text} (escape : c ≠ '\\') (line : q.isTriple = false → c ≠ '\n')
      (goesOn : Text.strip? q.delimiter (c :: (body ++ q.delimiter)) = none)
      (more : Encloses q body) : Encloses q (c :: body)

/-- Texts behind an opening plain delimiter that reach the end of the line without closing. -/
inductive Leaves (q : Quote) : Text → Prop
  | nil : Leaves q []
  | escaped (e : Char) {body : Text} (more : Leaves q body) : Leaves q ('\\' :: e :: body)
  | cons {c : Char} {body : Text} (escape : c ≠ '\\') (line : c ≠ '\n') (goesOn : c ≠ q.char)
      (more : Leaves q body) : Leaves q (c :: body)

end Quote

namespace Literal

section Close
variable {q : Quote} {t body rest : Text}

theorem close_cons {c : Char} (hc : c ≠ '\\') (t : Text) :
    close q (c :: t) =
      if !q.isTriple && c == '\n' then .error (c :: t)
      else match Text.strip? q.delimiter (c :: t) with
        | some rest => .ok ([], rest)
        | none => (close q t).map fun (body, rest) => (c :: body, rest) := by
  rw [close.eq_def]
  split
  · next h => cases h
  · next h => exact absurd (List.cons.inj h).1 hc
  · next h => exact absurd (List.cons.inj h).1 hc
  · next h => cases h; rfl

theorem close_escaped (e : Char) (t : Text) :
    close q ('\\' :: e :: t) =
      (close q t).map fun (body, rest) => ('\\' :: e :: body, rest) := by
  rw [close]

/-- A plain delimiter is its character. -/
theorem strip?_plain {c : Char} (h : q.isTriple = false) (hc : c ≠ q.char) (t : Text) :
    Text.strip? q.delimiter (c :: t) = none := by
  rw [Quote.delimiter_plain h, Text.strip?, if_neg (Ne.symm hc)]

theorem close_sound (h : close q t = .ok (body, rest)) :
    q.Encloses body ∧ t = body ++ (q.delimiter ++ rest) := by
  fun_induction close q t generalizing body with
  | case1 => cases h
  | case2 => cases h
  | case3 e t ih =>
    cases hc : close q t with
    | error r => rw [hc] at h; cases h
    | ok x =>
      rw [hc] at h
      cases h
      obtain ⟨more, rfl⟩ := ih hc
      exact ⟨.escaped e more, rfl⟩
  | case4 => cases h
  | case5 c t _ _ _ r hs =>
    cases h
    have whole : c :: t = q.delimiter ++ rest := Text.strip?_eq_some_iff.1 hs
    exact ⟨.nil, whole⟩
  | case6 c t single escaped line hs ih =>
    cases hc : close q t with
    | error r => rw [hc] at h; cases h
    | ok x =>
      rw [hc] at h
      cases h
      obtain ⟨more, rfl⟩ := ih hc
      have escape : c ≠ '\\' := by
        rintro rfl
        cases ht : x.1 ++ (q.delimiter ++ x.2) with
        | nil => exact single rfl ht
        | cons e t => exact escaped e t rfl ht
      refine ⟨.cons escape ?_ ?_ more, rfl⟩
      · rintro plain rfl
        simp [plain] at line
      · rw [Text.strip?_eq_none_iff] at hs ⊢
        intro r hr
        refine hs (r ++ x.2) ?_
        rw [← List.append_assoc, ← List.append_assoc, ← hr]
        simp

theorem close_complete (h : q.Encloses body) (rest : Text) :
    close q (body ++ (q.delimiter ++ rest)) = .ok (body, rest) := by
  induction h with
  | nil =>
    obtain ⟨more, hq⟩ := q.delimiter_eq_cons
    have hs : Text.strip? q.delimiter (q.char :: (more ++ rest)) = some rest := by
      rw [Text.strip?_eq_some_iff, hq, List.cons_append]
    rw [List.nil_append, hq, List.cons_append, close_cons q.char_ne_backslash,
      if_neg (by simp [q.char_ne_newline]), hs]
  | escaped e more ih =>
    rw [List.cons_append, List.cons_append, close_escaped, ih]
    rfl
  | @cons c body escape line goesOn more ih =>
    have hs : Text.strip? q.delimiter (c :: (body ++ (q.delimiter ++ rest))) = none := by
      rw [Text.strip?_eq_none_iff] at goesOn ⊢
      intro r hr
      have whole : (c :: (body ++ q.delimiter)) ++ rest = q.delimiter ++ r := by simpa using hr
      obtain ⟨w, hw, -⟩ := Text.exists_append_of_length_le whole.symm (by simp; omega)
      exact goesOn w hw
    have inLine : (!q.isTriple && c == '\n') = false := by
      cases hq : q.isTriple with
      | true => rfl
      | false => simpa using line hq
    rw [List.cons_append, close_cons escape, inLine, hs, ih]
    rfl

theorem close_eq_ok_iff :
    close q t = .ok (body, rest) ↔ q.Encloses body ∧ t = body ++ (q.delimiter ++ rest) := by
  constructor
  · exact close_sound
  · rintro ⟨h, rfl⟩
    exact close_complete h rest

/-- A text that does not close ends inside the literal, or at a line break if the delimiter is a
plain one. -/
theorem close_error (h : close q t = .error rest) :
    rest = [] ∨ q.isTriple = false ∧ ∃ lead z, q.Leaves lead ∧ rest = '\n' :: z ∧ t = lead ++ rest := by
  fun_induction close q t with
  | case1 => cases h; exact .inl rfl
  | case2 => cases h; exact .inl rfl
  | case3 e t ih =>
    cases hc : close q t with
    | ok x => rw [hc] at h; cases h
    | error r =>
      rw [hc] at h
      cases h
      rcases ih hc with done | ⟨plain, lead, z, more, hr, rfl⟩
      · exact .inl done
      · exact .inr ⟨plain, _, z, .escaped e more, hr, rfl⟩
  | case4 c t _ _ line =>
    cases h
    simp only [Bool.and_eq_true, Bool.not_eq_true', beq_iff_eq] at line
    obtain ⟨plain, rfl⟩ := line
    exact .inr ⟨plain, [], t, .nil, rfl, rfl⟩
  | case5 => cases h
  | case6 c t single escaped line hs ih =>
    cases hc : close q t with
    | ok x => rw [hc] at h; cases h
    | error r =>
      rw [hc] at h
      cases h
      rcases ih hc with done | ⟨plain, lead, z, more, hr, rfl⟩
      · exact .inl done
      · have escape : c ≠ '\\' := by
          rintro rfl
          cases ht : lead ++ rest with
          | nil => exact single rfl ht
          | cons e t => exact escaped e t rfl ht
        refine .inr ⟨plain, c :: lead, z, .cons escape ?_ ?_ more, hr, rfl⟩
        · rintro rfl
          simp [plain] at line
        · rintro rfl
          rw [Quote.delimiter_plain plain] at hs
          simp [Text.strip?] at hs

theorem close_leaves {lead : Text} (plain : q.isTriple = false) (h : q.Leaves lead) (z : Text) :
    close q (lead ++ '\n' :: z) = .error ('\n' :: z) := by
  induction h with
  | nil => rw [List.nil_append, close_cons (by decide), plain]; rfl
  | escaped e more ih => rw [List.cons_append, List.cons_append, close_escaped, ih]; rfl
  | cons escape line goesOn more ih =>
    rw [List.cons_append, close_cons escape, plain, strip?_plain plain goesOn, ih,
      if_neg (by simpa using line)]
    rfl

end Close

section Read
variable {m t body rest : Text} {l : Literal} {q : Quote} {c : Char}

/-- Marks are letters. -/
def isMark (c : Char) : Bool := ['f', 'r', 'b', 'u'].contains c.toLower

theorem isMark_of_mem (h : isMarks m = true) (hc : c ∈ m) : isMark c = true := by
  have lowered : c.toLower ∈ m.lower := List.mem_map_of_mem hc
  simp only [isMarks, List.contains_iff_mem, List.mem_cons, List.not_mem_nil, or_false] at h
  simp only [isMark, List.contains_iff_mem]
  rcases h with h | h | h | h | h | h | h | h | h <;> rw [h] at lowered <;> grind

theorem length_of_isMarks (h : isMarks m = true) : m.length ≤ 2 := by
  have same : m.lower.length = m.length := List.length_map ..
  simp only [isMarks, List.contains_iff_mem, List.mem_cons, List.not_mem_nil, or_false] at h
  rcases h with h | h | h | h | h | h | h | h | h <;> rw [h] at same <;> simp at same <;> omega

theorem toLower_eq {d u : Char} (hd : d.val = u.val + ('a'.val - 'A'.val)) (h : c.toLower = d) :
    c = d ∨ c = u := by
  unfold Char.toLower at h
  split at h
  · right
    have shifted : c.val + ('a'.val - 'A'.val) = u.val + ('a'.val - 'A'.val) := by rw [← hd, ← h]
    exact Char.ext ((UInt32.add_left_inj _).1 shifted)
  · exact .inl h

theorem mem_of_isMark (h : isMark c = true) : c ∈ ['f', 'F', 'r', 'R', 'b', 'B', 'u', 'U'] := by
  simp only [isMark, List.contains_iff_mem, List.mem_cons, List.not_mem_nil, or_false] at h
  rcases h with h | h | h | h
  · rcases toLower_eq (u := 'F') (by decide) h with rfl | rfl <;> decide
  · rcases toLower_eq (u := 'R') (by decide) h with rfl | rfl <;> decide
  · rcases toLower_eq (u := 'B') (by decide) h with rfl | rfl <;> decide
  · rcases toLower_eq (u := 'U') (by decide) h with rfl | rfl <;> decide

/-- What holds of the eight letters holds of every mark. -/
theorem isMark_elim {p : Char → Bool}
    (h : ['f', 'F', 'r', 'R', 'b', 'B', 'u', 'U'].all p = true) (hc : isMark c = true) :
    p c = true :=
  List.all_eq_true.1 h c (mem_of_isMark hc)

theorem isNameChar_of_isMark (h : isMark c = true) : isNameChar c = true :=
  isMark_elim (by decide) h

theorem isQuote_eq_false_of_isMark (h : isMark c = true) : isQuote c = false := by
  simpa using isMark_elim (p := (!isQuote ·)) (by decide) h

theorem isQuote_eq_false_of_mem (h : isMarks m = true) (hc : c ∈ m) : isQuote c = false :=
  isQuote_eq_false_of_isMark (isMark_of_mem h hc)

theorem marks?_eq_some_iff :
    marks? t = some m ↔ isMarks m = true ∧ ∃ c u, isQuote c = true ∧ t = m ++ c :: u := by
  constructor
  · intro h
    unfold marks? at h
    dsimp only at h
    split at h
    · next cond =>
      cases h
      simp only [Bool.and_eq_true] at cond
      obtain ⟨marks, quote⟩ := cond
      refine ⟨marks, ?_⟩
      generalize hm : (t.take 2).takeWhile (!isQuote ·) = m at *
      have whole : t = m ++ t.drop m.length := by
        have lead : m <+: t := hm ▸ (List.takeWhile_prefix _).trans (List.take_prefix 2 t)
        obtain ⟨u, rfl⟩ := lead
        simp
      cases hd : t.drop m.length with
      | nil => simp [hd] at quote
      | cons c u => exact ⟨c, u, by simpa [hd] using quote, hd ▸ whole⟩
    · cases h
  · rintro ⟨marks, c, u, quote, rfl⟩
    have inside : ∀ a ∈ m, (!isQuote a) = true := fun a ha => by
      simp [isQuote_eq_false_of_mem marks ha]
    have found : ((m ++ c :: u).take 2).takeWhile (!isQuote ·) = m := by
      rw [List.take_append, List.take_of_length_le (length_of_isMarks marks),
        List.takeWhile_append_of_pos inside]
      cases 2 - m.length with
      | zero => simp
      | succ n => simp [quote]
    simp [marks?, found, marks, quote]

theorem opening?_eq_some_iff :
    Quote.opening? t = some q ↔
      ∃ u, t = q.delimiter ++ u ∧ (q.isTriple = false → ∀ v, u ≠ q.char :: q.char :: v) := by
  constructor
  · intro h
    unfold Quote.opening? at h
    split at h <;> cases h
    · exact ⟨_, rfl, nofun⟩
    · next hne => exact ⟨_, rfl, fun _ v hv => hne v (by rw [hv]; rfl)⟩
    · exact ⟨_, rfl, nofun⟩
    · next hne => exact ⟨_, rfl, fun _ v hv => hne v (by rw [hv]; rfl)⟩
  · rintro ⟨u, rfl, hu⟩
    cases q <;> simp only [Quote.delimiter, Quote.isTriple, Quote.char] at hu ⊢ <;>
      simp [List.replicate, Quote.opening?]
    all_goals
      split <;> simp_all

/-- A literal that can be read: its marks are marks and its delimiter encloses its body. -/
structure Sound (l : Literal) : Prop where
  marks : isMarks l.marks = true
  body : l.quote.Encloses l.body

/-- No quote joins the two plain delimiters of an empty literal. -/
def Apart (l : Literal) (rest : Text) : Prop :=
  l.quote.isTriple = false → l.body = [] → rest.head? ≠ some l.quote.char

theorem Apart.of_head {rest' : Text} (h : Apart l rest) (head : rest'.head? = rest.head?) :
    Apart l rest' := by
  unfold Apart at *
  rwa [head]

/-- The opening delimiter is recognized, as the literal does not close too early. -/
theorem opening?_literal (h : q.Encloses body)
    (apart : q.isTriple = false → body = [] → rest.head? ≠ some q.char) :
    Quote.opening? (q.delimiter ++ (body ++ (q.delimiter ++ rest))) = some q := by
  refine opening?_eq_some_iff.2 ⟨_, rfl, fun plain v hv => ?_⟩
  rw [Quote.delimiter_plain plain] at hv
  cases h with
  | nil =>
    have tail : rest = q.char :: v := by simpa using hv
    exact apart plain rfl (by rw [tail]; rfl)
  | escaped e more => exact q.char_ne_backslash (by simpa using (List.cons.inj hv).1.symm)
  | cons escape line goesOn more =>
    have first := (List.cons.inj hv).1
    rw [first, Quote.delimiter_plain plain] at goesOn
    simp [Text.strip?] at goesOn

theorem marks?_literal (h : isMarks l.marks = true) (rest : Text) :
    marks? (l.text ++ rest) = some l.marks := by
  obtain ⟨more, hq⟩ := l.quote.delimiter_eq_cons
  refine marks?_eq_some_iff.2 ⟨h, l.quote.char, more ++ (l.body ++ (l.quote.delimiter ++ rest)),
    l.quote.isQuote_char, ?_⟩
  simp [text, hq]

/-- With marks and a quote ahead a delimiter stands behind the marks. -/
theorem exists_opened (h : marks? t = some m) :
    isMarks m = true ∧ ∃ (q : Quote) (v : Text), t = m ++ (q.delimiter ++ v) ∧
      (q.isTriple = false → ∀ w, v ≠ q.char :: q.char :: w) := by
  obtain ⟨marks, c, u, quote, rfl⟩ := marks?_eq_some_iff.1 h
  refine ⟨marks, ?_⟩
  cases hq : Quote.opening? (c :: u) with
  | none =>
    rcases isQuote_iff.1 quote with rfl | rfl <;> unfold Quote.opening? at hq <;>
      split at hq <;> simp_all
  | some q =>
    obtain ⟨v, hv, apart⟩ := opening?_eq_some_iff.1 hq
    exact ⟨q, v, by rw [hv], apart⟩

/-- Reading goes on behind the delimiter up to where the literal closes. -/
theorem read_opened {v : Text} (marks : isMarks m = true)
    (apart : q.isTriple = false → ∀ w, v ≠ q.char :: q.char :: w) :
    read (m ++ (q.delimiter ++ v)) =
      match close q v with
      | .ok (body, rest) => .closed ⟨m, q, body⟩ rest
      | .error rest => .unclosed rest := by
  have marked : marks? (m ++ (q.delimiter ++ v)) = some m := by
    obtain ⟨more, hq⟩ := q.delimiter_eq_cons
    rw [hq, List.cons_append]
    exact marks?_eq_some_iff.2 ⟨marks, _, _, q.isQuote_char, rfl⟩
  rw [read, marked]
  dsimp only
  rw [List.drop_left, opening?_eq_some_iff.2 ⟨v, rfl, apart⟩]
  cases closed : close q v with
  | ok found => simp only [List.drop_left, closed]
  | error rest => simp only [List.drop_left, closed]

theorem read_eq_closed_iff :
    read t = .closed l rest ↔ l.Sound ∧ l.Apart rest ∧ t = l.text ++ rest := by
  constructor
  · intro h
    cases hm : marks? t with
    | none =>
      rw [read, hm] at h
      cases h
    | some m =>
    obtain ⟨marks, q, v, rfl, open'⟩ := exists_opened hm
    rw [read_opened marks open'] at h
    split at h
    · next body rest' hc =>
      cases h
      obtain ⟨encloses, rfl⟩ := close_eq_ok_iff.1 hc
      refine ⟨⟨marks, encloses⟩, fun plain empty head => ?_, by simp [text]⟩
      cases rest with
      | nil => cases head
      | cons d z =>
        cases head
        dsimp only at empty
        refine open' plain z ?_
        rw [empty, Quote.delimiter_plain plain]
        rfl
    · cases h
  · rintro ⟨⟨marks, encloses⟩, apart, rfl⟩
    have shape : l.text ++ rest =
        l.marks ++ (l.quote.delimiter ++ (l.body ++ (l.quote.delimiter ++ rest))) := by
      simp [text]
    obtain ⟨v, hv, open'⟩ := opening?_eq_some_iff.1 (opening?_literal encloses apart)
    cases List.append_cancel_left hv
    rw [shape, read_opened marks open', close_complete encloses]

/-- A text begins with one literal only. -/
theorem text_append_inj {l' : Literal} {rest' : Text} (sound : l.Sound) (sound' : l'.Sound)
    (apart : l.Apart rest) (apart' : l'.Apart rest') (same : l.text ++ rest = l'.text ++ rest') :
    l = l' ∧ rest = rest' := by
  have here := read_eq_closed_iff.2 ⟨sound, apart, rfl⟩
  have there := read_eq_closed_iff.2 ⟨sound', apart', rfl⟩
  rw [same, there] at here
  cases here
  exact ⟨rfl, rfl⟩

/-- Text that holds no complete literal is given up after one character, or runs to the end of its
line or of the text. Up to the line break it is given up the same whatever the next lines are. -/
theorem read_unclosed (h : read t = .unclosed rest) :
    (marks? t = none ∧ rest = t.drop 1) ∨ rest = [] ∨
      ∃ lead z, rest = '\n' :: z ∧ t = lead ++ rest ∧
        ∀ z', read (lead ++ '\n' :: z') = .unclosed ('\n' :: z') := by
  cases hm : marks? t with
  | none =>
    rw [read, hm] at h
    cases h
    exact .inl ⟨rfl, rfl⟩
  | some m =>
  obtain ⟨marks, q, v, rfl, open'⟩ := exists_opened hm
  rw [read_opened marks open'] at h
  split at h
  · cases h
  next r hc =>
  cases h
  rcases close_error hc with done | ⟨plain, lead, z, leaves, rfl, rfl⟩
  · exact .inr (.inl done)
  have shape (x : Text) : m ++ (q.delimiter ++ lead) ++ '\n' :: x =
      m ++ (q.delimiter ++ (lead ++ '\n' :: x)) := by
    simp
  refine .inr (.inr ⟨m ++ (q.delimiter ++ lead), z, rfl, (shape z).symm, fun z' => ?_⟩)
  have behind : ∀ w, lead ++ '\n' :: z' ≠ q.char :: q.char :: w := by
    intro w hw
    cases leaves with
    | nil => exact q.char_ne_newline (List.cons.inj hw).1.symm
    | escaped e more => exact q.char_ne_backslash (List.cons.inj hw).1.symm
    | cons escape line goesOn more => exact goesOn (List.cons.inj hw).1
  rw [shape, read_opened marks fun _ => behind, close_leaves plain leaves]

end Read
end Literal

/-- A body fits between delimiters that enclose it. -/
theorem Quote.fits_iff {q : Quote} {body : Text} : q.fits body = true ↔ q.Encloses body := by
  have shape : q.delimiter ++ body ++ q.delimiter = (⟨[], q, body⟩ : Literal).text ++ [] := by
    simp [Literal.text]
  constructor
  · intro h
    unfold fits at h
    split at h
    · next l rest hr =>
      simp only [Bool.and_eq_true, List.isEmpty_iff, beq_iff_eq] at h
      obtain ⟨rfl, rfl⟩ := h
      obtain ⟨⟨marks, encloses⟩, -, whole⟩ := Literal.read_eq_closed_iff.1 hr
      have hm := Literal.marks?_literal marks []
      have none : Literal.marks? (⟨[], l.quote, body⟩ : Literal).text = some [] := by
        simpa using Literal.marks?_literal (l := ⟨[], l.quote, body⟩) rfl []
      rw [← whole, shape, List.append_nil, none] at hm
      have same : body = l.body := by
        rw [Literal.text, ← Option.some.inj hm] at whole
        simpa using whole
      rwa [same]
    · cases h
  · intro h
    have closed : Literal.read (q.delimiter ++ body ++ q.delimiter) = .closed ⟨[], q, body⟩ [] :=
      Literal.read_eq_closed_iff.2 ⟨⟨rfl, h⟩, fun _ _ => by simp, shape⟩
    rw [fits, closed]
    simp

end HostSql
