import HostSql.Host.Locate
import HostSql.Proofs.Host.Literal
import HostSql.Proofs.Text.Lines

/-! What the locator sees of a text ahead of it does not reach into the next fragment: a call hides
what follows the quote that its literal opens with, a block hides what follows its marker. -/
namespace HostSql

/-- Texts that part at the opening quotes of the arguments of a call, or behind a line that holds a
marker. -/
inductive Alike : Text → Text → Prop
  | same (t : Text) : Alike t t
  | quote {lead : Text} {q q' : Char} (t t' : Text) (call : '(' ∈ lead) (hq : isQuote q = true)
      (hq' : isQuote q' = true) : Alike (lead ++ q :: t) (lead ++ q' :: t')
  | line {lead : Text} (t t' : Text) (marker : '%' ∈ lead) :
      Alike (lead ++ '\n' :: t) (lead ++ '\n' :: t')

namespace Alike
variable {t t' m : Text} {l : Locator}

theorem symm (h : Alike t t') : Alike t' t := by
  cases h with
  | same => exact .same _
  | quote t t' call hq hq' => exact .quote t' t call hq' hq
  | line t t' marker => exact .line t' t marker

/-- The same text before both. -/
theorem append (h : Alike t t') (u : Text) : Alike (u ++ t) (u ++ t') := by
  cases h with
  | same => exact .same _
  | quote t t' call hq hq' =>
    rw [← List.append_assoc, ← List.append_assoc]
    exact .quote t t' (List.mem_append_right u call) hq hq'
  | line t t' marker =>
    rw [← List.append_assoc, ← List.append_assoc]
    exact .line t t' (List.mem_append_right u marker)

theorem head?_eq (h : Alike t t') : t'.head? = t.head? := by
  cases h with
  | same => rfl
  | quote t t' call =>
    obtain ⟨c, lead, rfl⟩ := List.exists_cons_of_ne_nil (List.ne_nil_of_mem call)
    rfl
  | line t t' marker =>
    obtain ⟨c, lead, rfl⟩ := List.exists_cons_of_ne_nil (List.ne_nil_of_mem marker)
    rfl

theorem eq_nil (h : Alike [] t') : t' = [] := by
  have := h.head?_eq
  cases t' with
  | nil => rfl
  | cons => cases this

theorem exists_cons {c : Char} (h : Alike (c :: t) t') : ∃ u, t' = c :: u := by
  have := h.head?_eq
  cases t' with
  | nil => cases this
  | cons d u => cases this; exact ⟨u, rfl⟩

/-- A class of characters that no call and no marker belongs to is passed in both alike. -/
theorem dropWhile {p : Char → Bool} (h : Alike t t') (call : p '(' = false)
    (marker : p '%' = false) :
    t'.takeWhile p = t.takeWhile p ∧ Alike (t.dropWhile p) (t'.dropWhile p) := by
  cases h with
  | same => exact ⟨rfl, .same _⟩
  | @quote lead q q' t t' hc hq hq' =>
    have kept := (Text.dropWhile_lead hc call []).2
    rw [Text.takeWhile_lead hc call, Text.takeWhile_lead hc call,
      (Text.dropWhile_lead hc call _).1, (Text.dropWhile_lead hc call _).1]
    exact ⟨rfl, .quote t t' kept hq hq'⟩
  | @line lead t t' hm =>
    have kept := (Text.dropWhile_lead hm marker []).2
    rw [Text.takeWhile_lead hm marker, Text.takeWhile_lead hm marker,
      (Text.dropWhile_lead hm marker _).1, (Text.dropWhile_lead hm marker _).1]
    exact ⟨rfl, .line t t' kept⟩

/-- Behind a first character texts are alike, unless that is where the call or the marker begins. -/
theorem of_cons {c : Char} (h : Alike (c :: t) (c :: t')) :
    Alike t t' ∨
    (c = '(' ∧ ∃ lead q q' z z', isQuote q = true ∧ isQuote q' = true ∧
      t = lead ++ q :: z ∧ t' = lead ++ q' :: z') ∨
    (c = '%' ∧ ∃ lead z z', t = lead ++ '\n' :: z ∧ t' = lead ++ '\n' :: z') := by
  generalize hx : c :: t = x at h
  generalize hy : c :: t' = y at h
  cases h with
  | same => exact .inl ((List.cons.inj (hx.trans hy.symm)).2 ▸ .same t)
  | @quote lead q q' z z' hc hq hq' =>
    obtain ⟨d, lead, rfl⟩ := List.exists_cons_of_ne_nil (List.ne_nil_of_mem hc)
    obtain ⟨rfl, rfl⟩ := List.cons.inj hx
    obtain ⟨-, rfl⟩ := List.cons.inj hy
    rcases List.mem_cons.1 hc with first | inner
    · exact .inr (.inl ⟨first.symm, lead, q, q', z, z', hq, hq', rfl, rfl⟩)
    · exact .inl (.quote z z' inner hq hq')
  | @line lead z z' hm =>
    obtain ⟨d, lead, rfl⟩ := List.exists_cons_of_ne_nil (List.ne_nil_of_mem hm)
    obtain ⟨rfl, rfl⟩ := List.cons.inj hx
    obtain ⟨-, rfl⟩ := List.cons.inj hy
    rcases List.mem_cons.1 hm with first | inner
    · exact .inr (.inr ⟨first.symm, lead, z, z', rfl, rfl⟩)
    · exact .inl (.line z z' inner)

/-- A character that no call and no marker starts with is passed in both alike. -/
theorem tail {c : Char} (h : Alike (c :: t) (c :: t')) (call : c ≠ '(') (marker : c ≠ '%') :
    Alike t t' := by
  rcases h.of_cons with alike | ⟨opened, -⟩ | ⟨marked, -⟩
  · exact alike
  · exact absurd opened call
  · exact absurd marked marker

/-- A first line that is not the same holds a quote. -/
theorem line_eq (h : Alike t t') : Locator.line t' = Locator.line t ∨
    (∃ q ∈ Locator.line t, isQuote q = true) ∧ ∃ q ∈ Locator.line t', isQuote q = true := by
  have cut {lead : Text} (hl : '\n' ∈ lead) (z z' : Text) :
      Locator.line (lead ++ z') = Locator.line (lead ++ z) := by
    have stop : (fun c : Char => c != '\n') '\n' = false := rfl
    unfold Locator.line
    rw [Text.takeWhile_lead (p := fun c => c != '\n') hl stop,
      Text.takeWhile_lead (p := fun c => c != '\n') hl stop]
  cases h with
  | same => exact .inl rfl
  | @quote lead q q' t t' _ hq hq' =>
    by_cases hl : '\n' ∈ lead
    · exact .inl (cut hl _ _)
    · have inLine {q : Char} (hq : isQuote q = true) (t : Text) :
          q ∈ Locator.line (lead ++ q :: t) := by
        rw [Locator.line, List.takeWhile_append_of_pos (Text.ne_newline hl),
          List.takeWhile_cons_of_pos]
        · simp
        · rcases isQuote_iff.1 hq with rfl | rfl <;> rfl
      exact .inr ⟨⟨q, inLine hq t, hq⟩, ⟨q', inLine hq' t', hq'⟩⟩
  | @line lead t t' _ =>
    have hl : '\n' ∈ lead ++ ['\n'] := by simp
    have moved (z : Text) : lead ++ '\n' :: z = (lead ++ ['\n']) ++ z := by simp
    rw [moved t, moved t']
    exact .inl (cut hl _ _)

theorem closesCall_eq (h : Alike t t') : Locator.closesCall t' = Locator.closesCall t := by
  obtain ⟨-, gap⟩ := h.dropWhile (p := Locator.isGap) rfl rfl
  unfold Locator.closesCall
  cases ht : t.dropWhile Locator.isGap with
  | nil => rw [ht] at gap; rw [gap.eq_nil]
  | cons c u =>
    rw [ht] at gap
    obtain ⟨u', hu⟩ := gap.exists_cons
    rw [hu] at gap ⊢
    by_cases hc : c = ','
    · subst hc
      have more := ((gap.tail (by decide) (by decide)).dropWhile (p := Locator.isGap) rfl rfl).2
      simp [more.head?_eq]
    · split <;> split <;> simp_all

/-- A quote that follows marks is as good as another. -/
theorem marks?_quote {q q' : Char} (hq : isQuote q = true) (hq' : isQuote q' = true)
    (lead : Text) (h : Literal.marks? (lead ++ q :: t) = some m) :
    Literal.marks? (lead ++ q' :: t') = some m := by
  obtain ⟨marks, c, u, hc, whole⟩ := Literal.marks?_eq_some_iff.1 h
  refine Literal.marks?_eq_some_iff.2 ⟨marks, ?_⟩
  rcases List.append_eq_append_iff.1 whole with ⟨w, rfl, hw⟩ | ⟨w, rfl, hw⟩
  · cases w with
    | nil => exact ⟨q', t', hq', by simp⟩
    | cons d w =>
      cases hw
      have plain := Literal.isQuote_eq_false_of_mem marks (List.mem_append_right lead List.mem_cons_self)
      rw [hq] at plain
      cases plain
  · cases w with
    | nil => exact ⟨q', t', hq', by simp⟩
    | cons d w =>
      cases hw
      exact ⟨c, w ++ q' :: t', hc, by simp⟩

theorem marks?_of (h : Alike t t') (hm : Literal.marks? t = some m) :
    Literal.marks? t' = some m := by
  cases h with
  | same => exact hm
  | quote t t' call hq hq' => exact marks?_quote hq hq' _ hm
  | @line lead t t' marker =>
    obtain ⟨marks, c, u, hc, whole⟩ := Literal.marks?_eq_some_iff.1 hm
    refine Literal.marks?_eq_some_iff.2 ⟨marks, ?_⟩
    rcases List.append_eq_append_iff.1 whole with ⟨w, rfl, hw⟩ | ⟨w, rfl, hw⟩
    · have mark := Literal.isMark_of_mem marks (List.mem_append_left w marker)
      exact absurd mark (by decide)
    · cases w with
      | nil =>
        have mark := Literal.isMark_of_mem marks (c := '%') (by simpa using marker)
        exact absurd mark (by decide)
      | cons d w =>
        cases hw
        exact ⟨c, w ++ '\n' :: t', hc, by simp⟩

theorem marks?_eq (h : Alike t t') : Literal.marks? t' = Literal.marks? t :=
  Option.ext fun _ => ⟨h.symm.marks?_of, h.marks?_of⟩

/-- The marks behind the parenthesis of a call, also if the texts part there. -/
theorem marks?_argument (h : Alike ('(' :: t) ('(' :: t'))
    (hm : Literal.marks? (t.dropWhile Locator.isGap) = some m) :
    Literal.marks? (t'.dropWhile Locator.isGap) = some m := by
  rcases h.of_cons with alike | ⟨-, lead, q, q', z, z', hq, hq', rfl, rfl⟩ | ⟨marked, -⟩
  · exact (alike.dropWhile rfl rfl).2.marks?_of hm
  · have kept {q : Char} (hq : isQuote q = true) (z : Text) :
        (lead ++ q :: z).dropWhile Locator.isGap = lead.dropWhile Locator.isGap ++ q :: z := by
      have stop : Locator.isGap q = false := by rcases isQuote_iff.1 hq with rfl | rfl <;> rfl
      rw [List.dropWhile_append, List.dropWhile_cons_of_neg (by simp [stop])]
      split
      · next he => rw [List.isEmpty_iff.1 he]; rfl
      · rfl
    rw [kept hq] at hm
    rw [kept hq']
    exact marks?_quote hq hq' _ hm
  · exact absurd marked (by decide)

/-- A name without the character `c'` begins both texts if it begins the one with that character. -/
theorem exists_name_append {name lead rest' : Text} {c c' : Char} (hc' : c' ∉ name)
    (hc : isNameChar c = false) (whole : lead ++ c' :: t' = name ++ rest') (t : Text) :
    ∃ rest, lead ++ c :: t = name ++ rest ∧
      (rest.head?.any isNameChar = true → rest'.head?.any isNameChar = true) := by
  rcases List.append_eq_append_iff.1 whole with ⟨w, hw, hr⟩ | ⟨w, rfl, rfl⟩
  · cases w with
    | nil => exact ⟨c :: t, by simp [hw], fun names => absurd names (by simp [hc])⟩
    | cons d w =>
      cases hr
      exact absurd (by rw [hw]; simp) hc'
  · refine ⟨w ++ c :: t, by simp, ?_⟩
    cases w with
    | nil => exact fun names => absurd names (by simp [hc])
    | cons d w => exact id

/-- A name without quotes and line breaks is found in both or in neither. -/
theorem afterName?_none (h : Alike t t')
    (name : ∀ c ∈ l.callName, isQuote c = false ∧ c ≠ '\n') (hn : l.afterName? t = none) :
    l.afterName? t' = none := by
  by_cases empty : l.callName.isEmpty = true
  · simp [Locator.afterName?, empty]
  have other {u u' : Text} (head : ∀ rest', u' = l.callName ++ rest' →
      ∃ rest, u = l.callName ++ rest ∧ (rest.head?.any isNameChar = true →
        rest'.head?.any isNameChar = true)) (hn : l.afterName? u = none) :
      l.afterName? u' = none := by
    simp only [Locator.afterName?, if_neg empty] at hn ⊢
    split
    · next rest' hs =>
      obtain ⟨rest, rfl, names⟩ := head rest' (Text.strip?_eq_some_iff.1 hs)
      rw [Text.strip?_append] at hn
      dsimp only at hn
      split at hn
      · next hr => rw [if_pos (names hr)]
      · cases hn
    · rfl
  cases h with
  | same => exact hn
  | @quote lead q q' t t' _ hq hq' =>
    refine other (fun rest' whole => exists_name_append (c := q) (fun mem => ?_) ?_ whole t) hn
    · rw [(name q' mem).1] at hq'
      cases hq'
    · cases plain : isNameChar q with
      | false => rfl
      | true =>
        rw [not_quote_of_isNameChar plain] at hq
        cases hq
  | @line lead t t' marker =>
    exact other (fun rest' whole => exists_name_append (fun mem => (name '\n' mem).2 rfl) (by decide)
      whole t) hn

/-- A literal reads the same before texts that are alike. -/
theorem read_closed {u : Literal} (h : Alike t t') (hr : Literal.read (u.text ++ t) = .closed u t) :
    Literal.read (u.text ++ t') = .closed u t' := by
  obtain ⟨sound, apart, -⟩ := Literal.read_eq_closed_iff.1 hr
  exact Literal.read_eq_closed_iff.2 ⟨sound, apart.of_head h.head?_eq, rfl⟩

end Alike

/-- What stays unclosed is passed up to the same place before texts that are alike. -/
theorem Literal.read_unclosed_append {t rest : Text} (ht : t ≠ [])
    (h : Literal.read t = .unclosed rest) :
    ∃ u, u ≠ [] ∧ t = u ++ rest ∧
      ∀ rest', Alike rest rest' → Literal.read (u ++ rest') = .unclosed rest' := by
  rcases Literal.read_unclosed h with ⟨none, rfl⟩ | rfl | ⟨lead, z, rfl, rfl, same⟩
  · obtain ⟨c, t, rfl⟩ := List.exists_cons_of_ne_nil ht
    refine ⟨[c], by simp, rfl, fun rest' alike => ?_⟩
    have none' := (alike.append [c]).marks?_eq.trans none
    rw [Literal.read, none']
    rfl
  · refine ⟨t, ht, by simp, fun rest' alike => ?_⟩
    rw [alike.eq_nil, List.append_nil, h]
  · have moves := Literal.length_of_read_unclosed h ht
    refine ⟨lead, ?_, rfl, fun rest' alike => ?_⟩
    · rintro rfl
      simp at moves
    · obtain ⟨z', rfl⟩ := alike.exists_cons
      exact same z'

namespace Locator
variable {t m : Text}

theorem isGap_of_isIndent {c : Char} (h : isIndent c = true) : isGap c = true := by
  simp only [isIndent, Bool.or_eq_true, beq_iff_eq] at h
  rcases h with rfl | rfl <;> rfl

theorem not_gap_of_marks? {opened : Text} (h : Literal.marks? opened = some m) :
    opened.head?.any isGap = false := by
  obtain ⟨marks, q, u, hq, rfl⟩ := Literal.marks?_eq_some_iff.1 h
  cases m with
  | nil => rcases isQuote_iff.1 hq with rfl | rfl <;> rfl
  | cons c m =>
    have mark := Literal.isMark_of_mem marks List.mem_cons_self
    cases hc : isGap c with
    | false => simp [hc]
    | true =>
      simp only [isGap, Bool.or_eq_true, beq_iff_eq] at hc
      rcases hc with ((rfl | rfl) | rfl) | rfl <;> exact absurd mark (by decide)

/-- The argument of a call whose parenthesis is followed by a literal, complete or not. -/
theorem argument_opened {blanks gap opened : Text} (hb : ∀ c ∈ blanks, isIndent c = true)
    (hg : ∀ c ∈ gap, isGap c = true) (hm : Literal.marks? opened = some m) :
    argument (blanks ++ '(' :: (gap ++ opened)) =
      if Literal.marksMeanBytes m then .error .bytesLiteral
      else match Literal.read opened with
        | .unclosed _ => .error .unterminated
        | .closed literal rest =>
          if closesCall rest then .ok (blanks ++ '(' :: gap, literal) else .error .extraArguments := by
  have before : (blanks ++ '(' :: (gap ++ opened)).takeWhile isIndent = blanks :=
    Text.takeWhile_stop hb rfl
  have between : (gap ++ opened).takeWhile isGap = gap := Text.takeWhile_stop hg (not_gap_of_marks? hm)
  rw [argument, before, List.drop_left]
  cases hr : Literal.read opened with
  | unclosed => simp only [between, List.drop_left, hm, hr]
  | closed => simp only [between, List.drop_left, hm, hr]

/-- The call is refused unless that literal is closed, is not of bytes and closes the call. -/
theorem argument_refused {blanks gap opened : Text} (hb : ∀ c ∈ blanks, isIndent c = true)
    (hg : ∀ c ∈ gap, isGap c = true) (hm : Literal.marks? opened = some m)
    (other : ∀ v w, Literal.read opened = .closed v w → closesCall w = true →
      Literal.marksMeanBytes m = true) :
    ∃ reason, argument (blanks ++ '(' :: (gap ++ opened)) = .error reason := by
  rw [argument_opened hb hg hm]
  cases bytes : Literal.marksMeanBytes m with
  | true => exact ⟨_, rfl⟩
  | false =>
    cases read : Literal.read opened with
    | unclosed => exact ⟨_, rfl⟩
    | closed v w =>
      have closes : closesCall w ≠ true := fun closes => by
        rw [other v w read closes] at bytes
        cases bytes
      exact ⟨.extraArguments, if_neg closes⟩

/-- Without such a literal there is no argument, and none in a text that is alike. -/
theorem argument_cases (t : Text) :
    (∃ blanks gap opened m, t = blanks ++ '(' :: (gap ++ opened) ∧
      (∀ c ∈ blanks, isIndent c = true) ∧ (∀ c ∈ gap, isGap c = true) ∧
      Literal.marks? opened = some m) ∨
    ∃ reason, ∀ t', Alike t t' → argument t' = .error reason := by
  have blanks {t' : Text} (alike : Alike t t') := alike.dropWhile (p := isIndent) rfl rfl
  by_cases call : ∃ inner, t.dropWhile isIndent = '(' :: inner
  · obtain ⟨inner, hi⟩ := call
    cases hm : Literal.marks? (inner.dropWhile isGap) with
    | some m =>
      refine .inl ⟨t.takeWhile isIndent, inner.takeWhile isGap, inner.dropWhile isGap, m, ?_, ?_, ?_, hm⟩
      · rw [List.takeWhile_append_dropWhile, ← hi, List.takeWhile_append_dropWhile]
      · exact fun c hc => List.all_eq_true.1 List.all_takeWhile c hc
      · exact fun c hc => List.all_eq_true.1 List.all_takeWhile c hc
    | none =>
      refine .inr ⟨.notLiteral, fun t' alike => ?_⟩
      have opened := (blanks alike).2
      rw [hi] at opened
      obtain ⟨inner', hi'⟩ := opened.exists_cons
      rw [hi'] at opened
      have none : Literal.marks? (inner'.dropWhile isGap) = none := by
        cases hm' : Literal.marks? (inner'.dropWhile isGap) with
        | none => rfl
        | some m =>
          have found := opened.symm.marks?_argument hm'
          rw [hm] at found
          cases found
      rw [argument, Text.drop_takeWhile, hi']
      simp only [Text.drop_takeWhile, none]
  · refine .inr ⟨.notCalled, fun t' alike => ?_⟩
    rw [argument, Text.drop_takeWhile]
    split
    · next inner' hi =>
      have opened := (blanks alike).2.symm
      rw [hi] at opened
      exact absurd opened.exists_cons call
    · rfl

/-- A call has an argument when its parenthesis holds one literal that is not of bytes, a comma
behind it at most. -/
theorem argument_eq_ok_iff {gap : Text} {u : Literal} :
    argument t = .ok (gap, u) ↔
      ∃ blanks inner w, gap = blanks ++ '(' :: inner ∧ t = gap ++ (u.text ++ w) ∧
        (∀ c ∈ blanks, isIndent c = true) ∧ (∀ c ∈ inner, isGap c = true) ∧
        u.Sound ∧ u.Apart w ∧ Literal.marksMeanBytes u.marks = false ∧ closesCall w = true := by
  constructor
  · intro h
    rcases argument_cases t with ⟨blanks, inner, opened, m, rfl, hb, hg, hm⟩ | ⟨reason, refused⟩
    · rw [argument_opened hb hg hm] at h
      split at h
      · cases h
      next bytes =>
      split at h
      · cases h
      next literal w hr =>
      split at h
      · next closes =>
        cases h
        obtain ⟨sound, apart, rfl⟩ := Literal.read_eq_closed_iff.1 hr
        have marks : u.marks = m :=
          Option.some.inj ((Literal.marks?_literal sound.marks w).symm.trans hm)
        subst marks
        exact ⟨blanks, inner, w, rfl, by simp, hb, hg, sound, apart, by simpa using bytes, closes⟩
      · cases h
    · rw [refused t (.same t)] at h
      cases h
  · rintro ⟨blanks, inner, w, rfl, rfl, hb, hg, sound, apart, bytes, closes⟩
    have read := Literal.read_eq_closed_iff.2 ⟨sound, apart, rfl⟩
    have shape : (blanks ++ '(' :: inner) ++ (u.text ++ w) =
        blanks ++ '(' :: (inner ++ (u.text ++ w)) := by simp
    rw [shape, argument_opened hb hg (Literal.marks?_literal sound.marks w), read]
    simp [bytes, closes]

end Locator
end HostSql
