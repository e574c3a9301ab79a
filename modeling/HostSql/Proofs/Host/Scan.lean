import HostSql.Proofs.Host.Alike
import HostSql.Proofs.Text.Cuts
import HostSql.Proofs.Text.Lines

/-! The fragments that a run finds from a place on, one equation for each form that the text ahead
can have. -/
namespace HostSql

def Finding.fragment? : Finding → Option Fragment
  | .fragment f => some f
  | .refused _ _ => none

namespace Cursor

@[simp] theorem followsName_mk (b t : Text) :
    (⟨b, t⟩ : Cursor).followsName = b.head?.any isNameChar := rfl

theorem skip_append (b u t : Text) :
    (⟨b, u ++ t⟩ : Cursor).skip u.length = ⟨u.reverse ++ b, t⟩ := by
  simp [skip]

theorem skip_cons (b t : Text) (c : Char) : (⟨b, c :: t⟩ : Cursor).skip 1 = ⟨c :: b, t⟩ := rfl

end Cursor

namespace Locator
variable {l : Locator} {p : Phase} {b t u rest m : Text} {c : Char}

/-- The fragments found from a place on. -/
def found (l : Locator) (p : Phase) (k : Cursor) : List Fragment :=
  (l.run p k).filterMap Finding.fragment?

theorem locate_eq_found (l : Locator) (t : Text) : l.locate t = l.found .lineStart ⟨[], t⟩ := by
  rw [locate, findings, found, Cursor.atStart]
  congr 1

@[simp] theorem found_nil (l : Locator) (p : Phase) (b : Text) : l.found p ⟨b, []⟩ = [] := by
  rw [found, run, dif_pos rfl]
  rfl

theorem found_step {k : Cursor} {s : Step} (h : l.step p k = s) (hk : k.ahead ≠ []) :
    l.found p k = (s.found.bind Finding.fragment?).toList ++ l.found s.phase s.cursor := by
  subst h
  rw [found, run, dif_neg hk]
  dsimp only
  rw [List.filterMap_append, found]
  cases (l.step p k).found with
  | none => rfl
  | some x => cases x <;> rfl

/-- A step that finds no fragment. -/
theorem found_move {k : Cursor} {s : Step} (h : l.step p k = s) (hk : k.ahead ≠ [])
    (none : s.found.bind Finding.fragment? = none) :
    l.found p k = l.found s.phase s.cursor := by
  rw [found_step h hk, none]
  rfl

section LineStart

theorem step_plainLine (h : l.isMarkerLine (line t) = false) (b : Text) :
    l.step .lineStart ⟨b, t⟩ = { phase := .code, cursor := ⟨b, t⟩ } := by
  simp [step, atLineStart, h]

theorem found_plainLine (h : l.isMarkerLine (line t) = false) :
    l.found .lineStart ⟨b, t⟩ = l.found .code ⟨b, t⟩ := by
  cases t with
  | nil => simp
  | cons c t => rw [found_move (step_plainLine h b) (by simp) rfl]

theorem line_append_newline (h : '\n' ∉ u) (t : Text) : line (u ++ '\n' :: t) = u :=
  Text.takeWhile_stop (Text.ne_newline h) rfl

theorem line_eq_self (h : '\n' ∉ t) : line t = t := Text.takeWhile_line h

theorem step_marker (hu : '\n' ∉ u) (h : l.isMarkerLine u = true) (b t : Text) :
    l.step .lineStart ⟨b, u ++ '\n' :: t⟩ =
      { phase := .block, cursor := ⟨(u ++ ['\n']).reverse ++ b, t⟩ } := by
  have moved := Cursor.skip_append b (u ++ ['\n']) t
  rw [List.append_assoc, List.length_append] at moved
  simp only [step, atLineStart, line_append_newline hu, h]
  rw [if_pos trivial]
  congr 1

theorem found_marker (hu : '\n' ∉ u) (h : l.isMarkerLine u = true) (b t : Text) :
    l.found .lineStart ⟨b, u ++ '\n' :: t⟩ = l.found .block ⟨(u ++ ['\n']).reverse ++ b, t⟩ := by
  rw [found_move (step_marker hu h b t) (by simp) rfl]

theorem step_lastMarker (hu : '\n' ∉ u) (h : l.isMarkerLine u = true) (b : Text) :
    l.step .lineStart ⟨b, u⟩ = { phase := .block, cursor := ⟨u.reverse ++ b, []⟩ } := by
  simp [step, atLineStart, line_eq_self hu, h, Cursor.skip, List.take_of_length_le]

theorem found_lastMarker (hu : '\n' ∉ u) (h : l.isMarkerLine u = true) (b : Text) :
    l.found .lineStart ⟨b, u⟩ = [] := by
  cases u with
  | nil => simp
  | cons c u =>
    rw [found_move (step_lastMarker hu h b) (by simp) rfl]
    exact found_nil ..

end LineStart

section Code

theorem step_newline (l : Locator) (b t : Text) :
    l.step .code ⟨b, '\n' :: t⟩ = { phase := .lineStart, cursor := ⟨'\n' :: b, t⟩ } := by
  simp [step, inCode, Cursor.skip]

theorem found_newline (l : Locator) (b t : Text) :
    l.found .code ⟨b, '\n' :: t⟩ = l.found .lineStart ⟨'\n' :: b, t⟩ := by
  rw [found_move (step_newline l b t) (by simp) rfl]

theorem step_hash (l : Locator) (b t : Text) :
    l.step .code ⟨b, '#' :: t⟩ = { phase := .comment, cursor := ⟨b, '#' :: t⟩ } := by
  simp [step, inCode]

theorem found_hash (l : Locator) (b t : Text) :
    l.found .code ⟨b, '#' :: t⟩ = l.found .comment ⟨b, '#' :: t⟩ := by
  rw [found_move (step_hash l b t) (by simp) rfl]

theorem step_quote (hc : isQuote c = true) (b t : Text) :
    l.step .code ⟨b, c :: t⟩ = { phase := .literal, cursor := ⟨b, c :: t⟩ } := by
  rcases isQuote_iff.1 hc with rfl | rfl <;> simp [step, inCode, isQuote]

theorem found_quote (hc : isQuote c = true) (b t : Text) :
    l.found .code ⟨b, c :: t⟩ = l.found .literal ⟨b, c :: t⟩ := by
  rw [found_move (step_quote hc b t) (by simp) rfl]

theorem plain_of_isNameChar (hc : isNameChar c = true) :
    c ≠ '\n' ∧ c ≠ '#' ∧ isQuote c = false := by
  refine ⟨?_, ?_, not_quote_of_isNameChar hc⟩ <;> rintro rfl <;> revert hc <;> decide

theorem step_marked (hc : isNameChar c = true) (hb : b.head?.any isNameChar = false)
    (hm : (Literal.marks? (c :: t)).any (!·.isEmpty) = true) :
    l.step .code ⟨b, c :: t⟩ = { phase := .literal, cursor := ⟨b, c :: t⟩ } := by
  obtain ⟨line, hash, quote⟩ := plain_of_isNameChar hc
  simp [step, inCode, line, hash, quote, hc, hb, hm]

theorem found_marked (hc : isNameChar c = true) (hb : b.head?.any isNameChar = false)
    (hm : (Literal.marks? (c :: t)).any (!·.isEmpty) = true) :
    l.found .code ⟨b, c :: t⟩ = l.found .literal ⟨b, c :: t⟩ := by
  rw [found_move (step_marked hc hb hm) (by simp) rfl]

/-- A name that is not the name of the call is passed as a whole. -/
theorem step_name {w : Text} (hw : ∀ d ∈ w, isNameChar d = true) (hc : isNameChar c = true)
    (ht : t.head?.any isNameChar = false) (hb : b.head?.any isNameChar = false)
    (hm : (Literal.marks? (c :: (w ++ t))).any (!·.isEmpty) = false)
    (hn : l.afterName? (c :: (w ++ t)) = none) :
    l.step .code ⟨b, c :: (w ++ t)⟩ = { phase := .code, cursor := ⟨(c :: w).reverse ++ b, t⟩ } := by
  obtain ⟨line, hash, quote⟩ := plain_of_isNameChar hc
  have moved := Cursor.skip_append b (c :: w) t
  rw [List.cons_append, List.length_cons, Nat.add_comm] at moved
  simp only [step, inCode, line, hash, quote, hc, hm, hn, if_false, Bool.false_eq_true,
    Cursor.followsName_mk, hb, Bool.not_false, Bool.and_self, if_true,
    Text.takeWhile_stop hw ht, moved]

theorem found_name {w : Text} (hw : ∀ d ∈ w, isNameChar d = true) (hc : isNameChar c = true)
    (ht : t.head?.any isNameChar = false) (hb : b.head?.any isNameChar = false)
    (hm : (Literal.marks? (c :: (w ++ t))).any (!·.isEmpty) = false)
    (hn : l.afterName? (c :: (w ++ t)) = none) :
    l.found .code ⟨b, c :: (w ++ t)⟩ = l.found .code ⟨(c :: w).reverse ++ b, t⟩ := by
  rw [found_move (step_name hw hc ht hb hm hn) (by simp) rfl]

/-- Any other character is passed alone. -/
theorem step_other (line : c ≠ '\n') (hash : c ≠ '#') (quote : isQuote c = false)
    (h : (isNameChar c && !b.head?.any isNameChar) = false) (t : Text) :
    l.step .code ⟨b, c :: t⟩ = { phase := .code, cursor := ⟨c :: b, t⟩ } := by
  simp only [step, inCode, line, hash, quote, if_false, Bool.false_eq_true,
    Cursor.followsName_mk, h, Cursor.skip_cons]

theorem found_other (line : c ≠ '\n') (hash : c ≠ '#') (quote : isQuote c = false)
    (h : (isNameChar c && !b.head?.any isNameChar) = false) (t : Text) :
    l.found .code ⟨b, c :: t⟩ = l.found .code ⟨c :: b, t⟩ := by
  rw [found_move (step_other line hash quote h t) (by simp) rfl]

/-- The name of the call stands ahead, and a name may start here. -/
structure Named (l : Locator) (b t rest : Text) : Prop where
  name : l.afterName? t = some rest
  start : t.head?.any isNameChar = true
  fresh : b.head?.any isNameChar = false
  unmarked : (Literal.marks? t).any (!·.isEmpty) = false

theorem append_of_afterName? (h : l.afterName? t = some rest) :
    t = l.callName ++ rest ∧ l.callName ≠ [] ∧ rest.head?.any isNameChar = false := by
  unfold afterName? at h
  split at h
  · cases h
  next empty =>
  split at h
  · next r hs =>
    split at h
    · cases h
    · next hr =>
      cases h
      exact ⟨Text.strip?_eq_some_iff.1 hs, by simpa using empty, by simpa using hr⟩
  · cases h

theorem afterName?_append (hn : l.callName ≠ []) (hr : rest.head?.any isNameChar = false) :
    l.afterName? (l.callName ++ rest) = some rest := by
  have some : l.callName.isEmpty = false := by simpa using hn
  rw [afterName?, some, Text.strip?_append]
  simp [hr]

theorem step_named (h : l.Named b t rest) : l.step .code ⟨b, t⟩ = l.atCall ⟨b, t⟩ rest := by
  obtain ⟨name, start, fresh, unmarked⟩ := h
  cases t with
  | nil => cases start
  | cons c t =>
    have hc : isNameChar c = true := by simpa using start
    obtain ⟨line, hash, quote⟩ := plain_of_isNameChar hc
    simp only [step, inCode, line, hash, quote, hc, unmarked, name, if_false, Bool.false_eq_true,
      Cursor.followsName_mk, fresh, Bool.not_false, Bool.and_self, if_true]

theorem step_refused {reason : Refusal} (h : l.Named b (l.callName ++ rest) rest)
    (ha : argument rest = .error reason) :
    l.step .code ⟨b, l.callName ++ rest⟩ =
      { phase := .code
        cursor := ⟨l.callName.reverse ++ b, rest⟩
        found := if reason = .notCalled then none else some (.refused (Text.size b) reason) } := by
  rw [step_named h, atCall, ha]
  dsimp only
  rw [Cursor.skip_append]
  rfl

theorem found_refused {reason : Refusal} (h : l.Named b (l.callName ++ rest) rest)
    (ha : argument rest = .error reason) :
    l.found .code ⟨b, l.callName ++ rest⟩ = l.found .code ⟨l.callName.reverse ++ b, rest⟩ := by
  have named := (append_of_afterName? h.name).2.1
  rw [found_move (step_refused h ha) (by simp [named])]
  dsimp only
  split <;> rfl

theorem step_argument {gap w : Text} {u : Literal}
    (h : l.Named b (l.callName ++ (gap ++ (u.text ++ w))) (gap ++ (u.text ++ w)))
    (ha : argument (gap ++ (u.text ++ w)) = .ok (gap, u)) :
    l.step .code ⟨b, l.callName ++ (gap ++ (u.text ++ w))⟩ =
      { phase := .code
        cursor := ⟨(l.callName ++ (gap ++ u.text)).reverse ++ b, w⟩
        found := some (.fragment
          (.ofLiteral (Text.size b + Text.size (l.callName ++ gap)) u)) } := by
  have first := Cursor.skip_append b (l.callName ++ gap) (u.text ++ w)
  rw [List.append_assoc, List.length_append] at first
  have second := Cursor.skip_append ((l.callName ++ gap).reverse ++ b) u.text w
  rw [step_named h, atCall, ha]
  dsimp only
  rw [first, second, Cursor.offset]
  simp [Nat.add_comm, Nat.add_left_comm]

theorem found_argument {gap w : Text} {u : Literal}
    (h : l.Named b (l.callName ++ (gap ++ (u.text ++ w))) (gap ++ (u.text ++ w)))
    (ha : argument (gap ++ (u.text ++ w)) = .ok (gap, u)) :
    l.found .code ⟨b, l.callName ++ (gap ++ (u.text ++ w))⟩ =
      .ofLiteral (Text.size b + Text.size (l.callName ++ gap)) u ::
        l.found .code ⟨(l.callName ++ (gap ++ u.text)).reverse ++ b, w⟩ := by
  have named := (append_of_afterName? h.name).2.1
  rw [found_step (step_argument h ha) (by simp [named])]
  rfl

end Code

section Passing

/-- A comment is passed up to the end of its line. -/
theorem step_comment (hu : '\n' ∉ u) (ht : t = [] ∨ ∃ z, t = '\n' :: z) (b : Text) (c : Char) :
    l.step .comment ⟨b, c :: (u ++ t)⟩ = { phase := .code, cursor := ⟨(c :: u).reverse ++ b, t⟩ } := by
  have read : line (u ++ t) = u := by
    rcases ht with rfl | ⟨z, rfl⟩
    · rw [List.append_nil, line_eq_self hu]
    · exact line_append_newline hu z
  have moved := Cursor.skip_append b (c :: u) t
  rw [List.cons_append, List.length_cons, Nat.add_comm] at moved
  simp only [step, inComment, List.drop_succ_cons, List.drop_zero, read, moved]

theorem found_comment (hu : '\n' ∉ u) (ht : t = [] ∨ ∃ z, t = '\n' :: z) (b : Text) (c : Char) :
    l.found .comment ⟨b, c :: (u ++ t)⟩ = l.found .code ⟨(c :: u).reverse ++ b, t⟩ := by
  rw [found_move (step_comment hu ht b c) (by simp) rfl]

theorem step_closed {u : Literal} (h : Literal.read (u.text ++ t) = .closed u t) (b : Text) :
    l.step .literal ⟨b, u.text ++ t⟩ = { phase := .code, cursor := ⟨u.text.reverse ++ b, t⟩ } := by
  simp only [step, inLiteral, h, Cursor.skip_append]

theorem found_closed {u : Literal} (h : Literal.read (u.text ++ t) = .closed u t) (b : Text) :
    l.found .literal ⟨b, u.text ++ t⟩ = l.found .code ⟨u.text.reverse ++ b, t⟩ := by
  refine found_move (step_closed h b) ?_ rfl
  obtain ⟨more, hq⟩ := u.quote.delimiter_eq_cons
  simp [Literal.text, hq]

theorem step_unclosed (h : Literal.read (u ++ t) = .unclosed t) (b : Text) :
    l.step .literal ⟨b, u ++ t⟩ = { phase := .code, cursor := ⟨u.reverse ++ b, t⟩ } := by
  simp only [step, inLiteral, h, List.length_append, Nat.add_sub_cancel, Cursor.skip_append]

theorem found_unclosed (hu : u ≠ []) (h : Literal.read (u ++ t) = .unclosed t) (b : Text) :
    l.found .literal ⟨b, u ++ t⟩ = l.found .code ⟨u.reverse ++ b, t⟩ :=
  found_move (step_unclosed h b) (by simp [hu]) rfl

end Passing

/-- Behind a literal stands the last quote of its delimiter. -/
theorem quote_behind (b : Text) (v : Literal) :
    (v.text.reverse ++ b).head? = some v.quote.char := by
  obtain ⟨more, hq⟩ := v.quote.delimiter_eq_concat
  simp [Literal.text, hq]

/-- At the break of a line, or at the end, no name begins. -/
theorem not_name_newline (stop : t = [] ∨ ∃ z, t = '\n' :: z) : t.head?.any isNameChar = false := by
  rcases stop with rfl | ⟨z, rfl⟩
  · rfl
  · simp [isNameChar]

theorem not_name_quote (v : Literal) : isNameChar v.quote.char = false := by
  cases v.quote <;> decide

/-- Names and markers that the scan can tell from everything around a literal. -/
structure Plain (l : Locator) : Prop where
  name : ∀ c ∈ l.callName, isQuote c = false ∧ c ≠ '\n'
  percent : l.marker.head? = some '%'
  unquoted : ∀ c ∈ l.marker, isQuote c = false

section Lines

theorem Plain.marker_ne_nil (plain : l.Plain) : l.marker ≠ [] := by
  intro none
  have percent := plain.percent
  rw [none] at percent
  cases percent

theorem Plain.mem_of_isMarkerLine (plain : l.Plain) (h : l.isMarkerLine t = true) : '%' ∈ t := by
  simp only [isMarkerLine, Bool.and_eq_true, beq_iff_eq] at h
  have : '%' ∈ l.marker := List.mem_of_mem_head? plain.percent
  exact Text.mem_of_mem_trim (h.2 ▸ this)

theorem Plain.not_marker_of_quote (plain : l.Plain) (h : ∃ q ∈ t, isQuote q = true) :
    l.isMarkerLine t = false := by
  obtain ⟨q, hq, quote⟩ := h
  cases hm : l.isMarkerLine t with
  | false => rfl
  | true =>
    simp only [isMarkerLine, Bool.and_eq_true, beq_iff_eq] at hm
    have solid : isBlank q = false := by rcases isQuote_iff.1 quote with rfl | rfl <;> decide
    have := plain.unquoted q (hm.2 ▸ Text.mem_trim hq solid)
    rw [quote] at this
    cases this

/-- Lines of texts that are alike are markers in both or in neither. -/
theorem Plain.isMarkerLine_alike {t' : Text} (plain : l.Plain) (h : Alike t t') :
    l.isMarkerLine (line t') = l.isMarkerLine (line t) := by
  rcases h.line_eq with same | ⟨here, there⟩
  · rw [same]
  · rw [plain.not_marker_of_quote here, plain.not_marker_of_quote there]

theorem Plain.continuesBlock_alike {t' : Text} (plain : l.Plain) (h : Alike t t')
    (stop : l.continuesBlock (line t) = false) : line t' = line t := by
  rcases h.line_eq with same | ⟨here, -⟩
  · exact same
  · have marker := plain.not_marker_of_quote here
    obtain ⟨q, hq, quote⟩ := here
    simp only [continuesBlock, marker, Bool.not_false, Bool.and_true, Bool.not_eq_false'] at stop
    have := List.all_eq_true.1 stop q hq
    rcases isQuote_iff.1 quote with rfl | rfl <;> exact absurd this (by decide)

/-- A blank, a line break or a parenthesis begins no other form. -/
theorem plain_of_opening (hc : isGap c = true ∨ c = '(') :
    c ≠ '#' ∧ isNameChar c = false ∧ isQuote c = false := by
  rcases hc with gap | rfl
  · simp only [isGap, Bool.or_eq_true, beq_iff_eq] at gap
    rcases gap with ((rfl | rfl) | rfl) | rfl <;> decide
  · decide

/-- What stands between the name of a call and its literal. -/
theorem opening_of_gap {blanks gap : Text} (hb : ∀ c ∈ blanks, isIndent c = true)
    (hg : ∀ c ∈ gap, isGap c = true) : ∀ c ∈ blanks ++ '(' :: gap, isGap c = true ∨ c = '(' := by
  intro c hc
  rcases List.mem_append.1 hc with hc | hc
  · exact .inl (isGap_of_isIndent (hb c hc))
  · rcases List.mem_cons.1 hc with rfl | hc
    · exact .inr rfl
    · exact .inl (hg c hc)

/-- Between a call's parenthesis and its literal no percent sign comes first on a line. -/
theorem not_percent_opened (hu : ∀ c ∈ u, isGap c = true ∨ c = '(')
    (hm : Literal.marks? t = some m) : ((u ++ t).dropWhile isBlank).head? ≠ some '%' := by
  intro first
  induction u with
  | nil =>
    obtain ⟨marks, q, w, quote, rfl⟩ := Literal.marks?_eq_some_iff.1 hm
    cases m with
    | nil => rcases isQuote_iff.1 quote with rfl | rfl <;> cases first
    | cons c m =>
      have mark := Literal.isMark_of_mem marks List.mem_cons_self
      have solid : isBlank c = false := by
        simpa using Literal.isMark_elim (p := (!isBlank ·)) (by decide) mark
      simp only [List.nil_append, List.cons_append, List.dropWhile_cons, solid,
        Bool.false_eq_true, if_false, List.head?_cons, Option.some.injEq] at first
      subst first
      exact absurd mark (by decide)
  | cons c u ih =>
    cases hc : isBlank c with
    | true =>
      rw [List.cons_append, List.dropWhile_cons_of_pos hc] at first
      exact ih (fun d hd => hu d (List.mem_cons_of_mem _ hd)) first
    | false =>
      simp only [List.cons_append, List.dropWhile_cons, hc,
        Bool.false_eq_true, if_false, List.head?_cons, Option.some.injEq] at first
      subst first
      exact absurd (hu '%' List.mem_cons_self) (by decide)

theorem not_marker_opened (plain : l.Plain) (hu : ∀ c ∈ u, isGap c = true ∨ c = '(')
    (hm : Literal.marks? t = some m) : l.isMarkerLine (line (u ++ t)) = false := by
  cases h : l.isMarkerLine (line (u ++ t)) with
  | false => rfl
  | true =>
    simp only [isMarkerLine, Bool.and_eq_true, beq_iff_eq] at h
    have first : ((u ++ t).dropWhile isBlank).head? = some '%' :=
      Text.head?_dropWhile_takeWhile (Text.head?_trim (by rw [line] at h; rw [h.2, plain.percent]))
    exact absurd first (not_percent_opened hu hm)

/-- From behind its name to its argument a call is passed one character at a time, and its argument
is then read as a literal. -/
theorem found_opened (plain : l.Plain) (hu : ∀ c ∈ u, isGap c = true ∨ c = '(')
    (hm : Literal.marks? t = some m) (hb : u = [] → b.head?.any isNameChar = false) :
    l.found .code ⟨b, u ++ t⟩ = l.found .literal ⟨u.reverse ++ b, t⟩ := by
  induction u generalizing b with
  | nil =>
    obtain ⟨marks, q, w, quote, rfl⟩ := Literal.marks?_eq_some_iff.1 hm
    cases m with
    | nil => exact found_quote quote b w
    | cons c m =>
      have mark := Literal.isMark_of_mem marks List.mem_cons_self
      have marked : (Literal.marks? (c :: (m ++ q :: w))).any (!·.isEmpty) = true := by
        rw [← List.cons_append, hm]
        rfl
      exact found_marked (Literal.isNameChar_of_isMark mark) (hb rfl) marked
  | cons c u ih =>
    have tail : ∀ d ∈ u, isGap d = true ∨ d = '(' := fun d hd => hu d (List.mem_cons_of_mem _ hd)
    have moved : (c :: u).reverse ++ b = u.reverse ++ c :: b := by simp
    obtain ⟨hash, fresh, quote⟩ := plain_of_opening (hu c List.mem_cons_self)
    have rest := ih (b := c :: b) tail fun _ => by simpa using fresh
    rw [moved, ← rest, List.cons_append]
    by_cases hc : c = '\n'
    · subst hc
      rw [found_newline, found_plainLine (not_marker_opened plain tail hm)]
    · exact found_other hc hash quote (by simp [fresh]) _

end Lines

section Block
open Text (written)
variable {ls : List Text} {x tail : Text}

theorem continuesBlock_iff :
    l.continuesBlock u = true ↔ u.isBlankLine = false ∧ l.isMarkerLine u = false := by
  simp [continuesBlock]

/-- Where a block ends with a line that is not blank, that line is a marker. -/
theorem isMarkerLine_of_stop (stop : l.continuesBlock u = false) (solid : u.isBlankLine = false) :
    l.isMarkerLine u = true := by
  simpa [continuesBlock, solid] using stop

theorem extent_eq_length (ls : List Text) : extent ls = (written ls).length := by
  induction ls with
  | nil => rfl
  | cons x ls ih =>
    rw [extent] at ih ⊢
    simp only [List.map_cons, List.foldr_cons, ih, written, List.flatMap_cons, List.length_append,
      List.length_cons, List.length_nil]

theorem extent_lines (t : Text) : extent (Text.lines t) = t.length + 1 := by
  rcases Text.lines_cases t with ⟨one, -⟩ | ⟨x, u, -, rfl, more⟩
  · rw [one]
    simp [extent]
  · have := extent_lines u
    rw [more]
    simp only [extent, List.map_cons, List.foldr_cons, List.length_append, List.length_cons] at *
    omega
termination_by t.length
decreasing_by simp_all; omega

theorem head?_lines (t : Text) : ∃ more, Text.lines t = line t :: more := by
  have first := Text.head?_lines t
  cases h : Text.lines t with
  | nil => exact absurd h (Text.lines_ne_nil t)
  | cons y more =>
    rw [h] at first
    exact ⟨more, by rw [line, ← Option.some.inj first]⟩

/-- Only blank lines follow the marker. -/
theorem step_blankRest (h : ∀ x ∈ Text.lines t, Text.isBlankLine x = true) (b : Text) :
    l.step .block ⟨b, t⟩ = { phase := .lineStart, cursor := ⟨t.reverse ++ b, []⟩ } := by
  have all : (Text.lines t).takeWhile Text.isBlankLine = Text.lines t := by
    rw [← List.append_nil (Text.lines t), List.takeWhile_append_of_pos h, List.takeWhile_nil]
  have none : (Text.lines t).dropWhile Text.isBlankLine = [] := by
    rw [← List.append_nil (Text.lines t), List.dropWhile_append_of_pos h, List.dropWhile_nil]
  simp only [step, inBlock, all, none, extent_lines, Cursor.skip]
  simp [extent, List.take_of_length_le]

theorem found_blankRest (h : ∀ x ∈ Text.lines t, Text.isBlankLine x = true) (b : Text) :
    l.found .block ⟨b, t⟩ = [] := by
  cases t with
  | nil => exact found_nil ..
  | cons c t =>
    rw [found_move (step_blankRest h b) (by simp) rfl]
    exact found_nil ..

/-- Blank lines are followed by another marker. -/
theorem step_emptyBlock (hl : ∀ x ∈ ls, Text.isBlankLine x = true ∧ '\n' ∉ x)
    (solid : Text.isBlankLine (line t) = false) (stop : l.continuesBlock (line t) = false)
    (b : Text) :
    l.step .block ⟨b, written ls ++ t⟩ =
      { phase := .lineStart, cursor := ⟨(written ls).reverse ++ b, t⟩ } := by
  obtain ⟨more, hm⟩ := head?_lines t
  have whole : Text.lines (written ls ++ t) = ls ++ line t :: more := by
    rw [Text.lines_written fun x hx => (hl x hx).2, hm]
  have blank : ∀ x ∈ ls, Text.isBlankLine x = true := fun x hx => (hl x hx).1
  simp only [step, inBlock, whole, List.takeWhile_append_of_pos blank,
    List.dropWhile_append_of_pos blank, List.takeWhile_cons, List.dropWhile_cons, solid, stop,
    Bool.false_eq_true, if_false, List.append_nil, extent_eq_length, Cursor.skip_append]
  simp [written, Cursor.skip]

theorem found_emptyBlock (hl : ∀ x ∈ ls, Text.isBlankLine x = true ∧ '\n' ∉ x)
    (solid : Text.isBlankLine (line t) = false) (stop : l.continuesBlock (line t) = false)
    (b : Text) :
    l.found .block ⟨b, written ls ++ t⟩ = l.found .lineStart ⟨(written ls).reverse ++ b, t⟩ := by
  have some : t ≠ [] := by
    rintro rfl
    cases solid
  rw [found_move (step_emptyBlock hl solid stop b) (by simp [some]) rfl]

/-- Blank lines are followed by lines up to the end or a line that is blank or a marker. -/
theorem step_block (hl : ∀ x ∈ ls, Text.isBlankLine x = true ∧ '\n' ∉ x)
    (hx : ∀ y ∈ Text.lines x, l.continuesBlock y = true)
    (stop : tail = [] ∨ ∃ t, tail = '\n' :: t ∧ l.continuesBlock (line t) = false) (b : Text) :
    l.step .block ⟨b, written ls ++ (x ++ tail)⟩ =
      { phase := .lineStart
        cursor := ⟨(written ls ++ (x ++ tail.take 1)).reverse ++ b, tail.drop 1⟩
        found := some (.fragment
          (.ofBlock (Text.size b + Text.size (written ls)) (withoutReturn x))) } := by
  obtain ⟨rest, hr, ends⟩ : ∃ rest, Text.lines (x ++ tail) = Text.lines x ++ rest ∧
      rest.takeWhile l.continuesBlock = [] := by
    rcases stop with rfl | ⟨t, rfl, stop⟩
    · exact ⟨[], by simp, rfl⟩
    · obtain ⟨more, hm⟩ := head?_lines t
      exact ⟨Text.lines t, Text.lines_append x t, by simp [hm, stop]⟩
  obtain ⟨first, more, hf⟩ := List.exists_cons_of_ne_nil (Text.lines_ne_nil x)
  have solid : Text.isBlankLine first = false :=
    (continuesBlock_iff.1 (hx first (hf ▸ List.mem_cons_self))).1
  have blank : ∀ x ∈ ls, Text.isBlankLine x = true := fun x hx => (hl x hx).1
  have whole : Text.lines (written ls ++ (x ++ tail)) = ls ++ (Text.lines x ++ rest) := by
    rw [Text.lines_written fun x hx => (hl x hx).2, hr]
  have skipped : (Text.lines x ++ rest).takeWhile Text.isBlankLine = [] ∧
      (Text.lines x ++ rest).dropWhile Text.isBlankLine = Text.lines x ++ rest := by
    rw [hf]
    simp [solid]
  have body : (Text.lines x ++ rest).takeWhile l.continuesBlock = Text.lines x := by
    rw [List.takeWhile_append_of_pos hx, ends, List.append_nil]
  have filled : (Text.lines x).isEmpty = false := by rw [hf]; rfl
  have moved (b : Text) : (⟨b, x ++ tail⟩ : Cursor).skip (x.length + 1) =
      ⟨(x ++ tail.take 1).reverse ++ b, tail.drop 1⟩ := by
    simp [Cursor.skip, List.take_append, List.drop_append, List.take_of_length_le,
      List.drop_of_length_le]
  simp only [step, inBlock, whole, List.takeWhile_append_of_pos blank,
    List.dropWhile_append_of_pos blank, skipped, body, filled, List.append_nil, extent_eq_length,
    Cursor.skip_append, Text.ofLines_lines]
  rw [← extent_eq_length, extent_lines, moved]
  simp [Cursor.offset, Nat.add_comm]

theorem not_marker_of_blank (blank : u.isBlankLine = true) : l.isMarkerLine u = false := by
  have none := Text.dropWhile_stop (t := []) (List.all_eq_true.1 blank) rfl
  rw [List.append_nil] at none
  cases hm : l.isMarkerLine u with
  | false => rfl
  | true =>
    simp only [isMarkerLine, Bool.and_eq_true, Bool.not_eq_true', List.isEmpty_eq_false_iff,
      beq_iff_eq] at hm
    obtain ⟨c, more, first⟩ := List.exists_cons_of_ne_nil hm.1
    have here := Text.head?_trim (t := u) (c := c) (by rw [hm.2, first]; rfl)
    rw [none] at here
    cases here

/-- Lines that go on hold something. -/
theorem ne_nil_of_continues (hx : ∀ y ∈ Text.lines x, l.continuesBlock y = true) : x ≠ [] := by
  rintro rfl
  have first := hx [] (by simp [Text.lines, Text.splitWhere])
  simp [continuesBlock, Text.isBlankLine] at first

theorem trim_ne_marker {y : Text} (h : l.continuesBlock y = true) (some : l.marker ≠ []) :
    y.trim ≠ l.marker := by
  intro same
  simp [continuesBlock, isMarkerLine, some, same] at h

theorem found_block (hl : ∀ x ∈ ls, Text.isBlankLine x = true ∧ '\n' ∉ x)
    (hx : ∀ y ∈ Text.lines x, l.continuesBlock y = true)
    (stop : tail = [] ∨ ∃ t, tail = '\n' :: t ∧ l.continuesBlock (line t) = false) (b : Text) :
    l.found .block ⟨b, written ls ++ (x ++ tail)⟩ =
      .ofBlock (Text.size b + Text.size (written ls)) (withoutReturn x) ::
        l.found .lineStart ⟨(written ls ++ (x ++ tail.take 1)).reverse ++ b, tail.drop 1⟩ := by
  rw [found_step (step_block hl hx stop b) (by simp [ne_nil_of_continues hx])]
  rfl

/-- These are all forms that a text behind a marker can have. -/
theorem block_cases (l : Locator) (t : Text) :
    (∀ x ∈ Text.lines t, Text.isBlankLine x = true) ∨
    (∃ ls u, t = written ls ++ u ∧ (∀ x ∈ ls, Text.isBlankLine x = true ∧ '\n' ∉ x) ∧
      Text.isBlankLine (line u) = false ∧ l.continuesBlock (line u) = false) ∨
    ∃ ls x tail, t = written ls ++ (x ++ tail) ∧
      (∀ x ∈ ls, Text.isBlankLine x = true ∧ '\n' ∉ x) ∧
      (∀ y ∈ Text.lines x, l.continuesBlock y = true) ∧
      (tail = [] ∨ ∃ u, tail = '\n' :: u ∧ l.continuesBlock (line u) = false) := by
  have split := List.takeWhile_append_dropWhile (p := Text.isBlankLine) (l := Text.lines t)
  have blank : ∀ x ∈ (Text.lines t).takeWhile Text.isBlankLine, Text.isBlankLine x = true :=
    List.all_eq_true.1 List.all_takeWhile
  by_cases rest : (Text.lines t).dropWhile Text.isBlankLine = []
  · rw [rest, List.append_nil] at split
    exact .inl (split ▸ blank)
  have solid := List.head_dropWhile_not Text.isBlankLine rest
  obtain ⟨u, ht, hu⟩ := Text.exists_written split.symm rest
  have lead : ∀ x ∈ (Text.lines t).takeWhile Text.isBlankLine,
      Text.isBlankLine x = true ∧ '\n' ∉ x := fun x hx =>
    ⟨blank x hx, Text.not_mem_of_mem_lines (split ▸ List.mem_append_left _ hx)⟩
  generalize (Text.lines t).takeWhile Text.isBlankLine = ls at *
  generalize hr : (Text.lines t).dropWhile Text.isBlankLine = rs at *
  obtain ⟨more, hm⟩ := head?_lines u
  have first : Text.isBlankLine (line u) = false := by
    simpa [← hu, hm] using solid
  have split' := List.takeWhile_append_dropWhile (p := l.continuesBlock) (l := Text.lines u)
  by_cases body : (Text.lines u).takeWhile l.continuesBlock = []
  · refine .inr (.inl ⟨ls, u, ht, lead, first, ?_⟩)
    cases hc : l.continuesBlock (line u) with
    | false => rfl
    | true => simp [hm, hc] at body
  · obtain ⟨x, tail, rfl, hx, ends⟩ := Text.exists_lines_eq split'.symm body
    refine .inr (.inr ⟨ls, x, tail, ht, lead, ?_, ?_⟩)
    · rw [hx]
      exact List.all_eq_true.1 List.all_takeWhile
    · rcases ends with ⟨rfl, -⟩ | ⟨w, rfl, hw⟩
      · exact .inl rfl
      · refine .inr ⟨w, rfl, ?_⟩
        obtain ⟨more', hm'⟩ := head?_lines w
        have stop := List.head?_dropWhile_not l.continuesBlock (Text.lines (x ++ '\n' :: w))
        rw [← hw, hm'] at stop
        simpa using stop

end Block

end Locator
end HostSql
