import HostSql.Proofs.Text.Search

/-! Lines and words of a text, and the blanks at its ends. -/
namespace HostSql.Text

section Trim
variable {t : Text} {c : Char}

theorem mem_of_mem_trim (h : c ∈ t.trim) : c ∈ t := by
  rw [trim, trimEnd, dropTrailing, List.mem_reverse] at h
  have := (List.dropWhile_suffix isBlank).subset h
  exact (List.dropWhile_suffix isBlank).subset (List.mem_reverse.1 this)

theorem mem_trim (h : c ∈ t) (hc : isBlank c = false) : c ∈ t.trim := by
  rw [trim, trimEnd, dropTrailing, List.mem_reverse]
  have kept : c ∈ t.trimStart := (dropWhile_lead h hc []).2
  exact (dropWhile_lead (List.mem_reverse.2 kept) hc []).2

/-- A blank at the end is trimmed. -/
theorem trim_concat (t : Text) (hc : isBlank c = true) : trim (t ++ [c]) = trim t := by
  have ends (u : Text) : trimEnd (u ++ [c]) = trimEnd u := by simp [trimEnd, dropTrailing, hc]
  rw [trim, trim, trimStart, trimStart, List.dropWhile_append]
  split
  · next h => simp [List.isEmpty_iff.1 h, hc]
  · exact ends _

theorem head?_trim (h : t.trim.head? = some c) : (t.dropWhile isBlank).head? = some c := by
  rw [trim, trimEnd, dropTrailing] at h
  obtain ⟨u, hu⟩ := List.dropWhile_suffix isBlank (l := t.trimStart.reverse)
  have whole := congrArg List.reverse hu
  rw [List.reverse_append, List.reverse_reverse] at whole
  change t.trimStart.head? = some c
  rw [← whole, List.head?_append, h]
  rfl

/-- What the search finds in a beginning of the text it finds in the text. -/
theorem head?_dropWhile_takeWhile {p b : Char → Bool}
    (h : ((t.takeWhile p).dropWhile b).head? = some c) : (t.dropWhile b).head? = some c := by
  induction t with
  | nil => cases h
  | cons d t ih =>
    cases hp : p d with
    | false => simp [hp] at h
    | true =>
      cases hd : b d with
      | false => simpa [hp, hd] using h
      | true =>
        rw [List.dropWhile_cons_of_pos hd]
        rw [List.takeWhile_cons_of_pos hp, List.dropWhile_cons_of_pos hd] at h
        exact ih h

end Trim

section Pieces
variable {p : Char → Bool} {c : Char} {t u v w : Text}

theorem splitWhere_cons_of_neg (hc : p c = false) (t : Text) :
    ∃ first more, splitWhere p t = first :: more ∧
      splitWhere p (c :: t) = (c :: first) :: more := by
  induction t generalizing c with
  | nil => exact ⟨[], [], rfl, by simp [splitWhere, hc]⟩
  | cons d t ih =>
    cases hd : p d with
    | true => exact ⟨[], splitWhere p t, by simp [splitWhere, hd], by simp [splitWhere, hc, hd]⟩
    | false =>
      obtain ⟨first, more, -, h⟩ := ih hd
      exact ⟨d :: first, more, h, by rw [splitWhere, if_neg (by simp [hc]), h]⟩

theorem splitWhere_cons_of_pos (hc : p c = true) (t : Text) :
    splitWhere p (c :: t) = [] :: splitWhere p t := by
  rw [splitWhere, if_pos hc]

/-- A text is split at each of the characters apart from all others. -/
theorem splitWhere_append (hc : p c = true) (u v : Text) :
    splitWhere p (u ++ c :: v) = splitWhere p u ++ splitWhere p v := by
  induction u with
  | nil => exact splitWhere_cons_of_pos hc v
  | cons d u ih =>
    cases hd : p d with
    | true =>
      rw [List.cons_append, splitWhere_cons_of_pos hd, splitWhere_cons_of_pos hd, ih,
        List.cons_append]
    | false =>
      obtain ⟨first, more, hu, whole⟩ := splitWhere_cons_of_neg hd u
      obtain ⟨first', more', hu', whole'⟩ := splitWhere_cons_of_neg hd (u ++ c :: v)
      rw [ih, hu, List.cons_append] at hu'
      obtain ⟨rfl, rfl⟩ := List.cons.inj hu'
      rw [List.cons_append, whole, whole', List.cons_append]

theorem splitWhere_of_none (h : ∀ c ∈ t, p c = false) : splitWhere p t = [t] := by
  induction t with
  | nil => rfl
  | cons c t ih =>
    obtain ⟨first, more, ht, whole⟩ := splitWhere_cons_of_neg (h c List.mem_cons_self) t
    rw [ih fun d hd => h d (List.mem_cons_of_mem _ hd)] at ht
    obtain ⟨rfl, rfl⟩ := List.cons.inj ht
    exact whole

theorem splitWhere_ne_nil (p : Char → Bool) (t : Text) : splitWhere p t ≠ [] := by
  cases t with
  | nil => simp [splitWhere]
  | cons c t =>
    cases hc : p c with
    | true => simp [splitWhere_cons_of_pos hc]
    | false =>
      obtain ⟨first, more, -, whole⟩ := splitWhere_cons_of_neg hc t
      simp [whole]

theorem length_splitWhere (p : Char → Bool) (t : Text) :
    (splitWhere p t).length = t.countP p + 1 := by
  induction t with
  | nil => rfl
  | cons c t ih =>
    cases hc : p c with
    | true => simp [splitWhere_cons_of_pos hc, hc, ih]
    | false =>
      obtain ⟨first, more, ht, whole⟩ := splitWhere_cons_of_neg hc t
      rw [ht] at ih
      simp [whole, hc, ← ih]

theorem of_mem_splitWhere (h : w ∈ splitWhere p t) : ∀ c ∈ w, p c = false := by
  induction t generalizing w with
  | nil => simp_all [splitWhere]
  | cons d t ih =>
    cases hd : p d with
    | true =>
      rw [splitWhere_cons_of_pos hd] at h
      rcases List.mem_cons.1 h with rfl | h
      · simp
      · exact ih h
    | false =>
      obtain ⟨first, more, ht, whole⟩ := splitWhere_cons_of_neg hd t
      rw [whole] at h
      rcases List.mem_cons.1 h with rfl | h
      · intro c hc
        rcases List.mem_cons.1 hc with rfl | hc
        · exact hd
        · exact ih (ht ▸ List.mem_cons_self) c hc
      · exact ih (ht ▸ List.mem_cons_of_mem _ h)

theorem exists_mem_splitWhere (hc : p c = false) (u v : Text) :
    ∃ w ∈ splitWhere p (u ++ c :: v), c ∈ w := by
  induction u with
  | nil =>
    obtain ⟨first, more, -, whole⟩ := splitWhere_cons_of_neg hc v
    exact ⟨c :: first, by simp [whole], List.mem_cons_self⟩
  | cons d u ih =>
    obtain ⟨w, hw, hm⟩ := ih
    cases hd : p d with
    | true => exact ⟨w, by simp [splitWhere_cons_of_pos hd, hw], hm⟩
    | false =>
      obtain ⟨first, more, hu, whole⟩ := splitWhere_cons_of_neg hd (u ++ c :: v)
      rw [List.cons_append, whole]
      rw [hu] at hw
      rcases List.mem_cons.1 hw with rfl | hw
      · exact ⟨d :: w, List.mem_cons_self, List.mem_cons_of_mem _ hm⟩
      · exact ⟨w, List.mem_cons_of_mem _ hw, hm⟩

end Pieces

section Words
variable {c : Char} {t w g : Text}

/-- Words are split at a blank. -/
theorem words_append_blank (hc : isBlank c = true) (u v : Text) :
    words (u ++ c :: v) = words u ++ words v := by
  rw [words, splitWhere_append hc, List.filter_append, words, words]

theorem words_blanks (h : ∀ c ∈ g, isBlank c = true) : words g = [] := by
  induction g with
  | nil => rfl
  | cons c g ih =>
    have := words_append_blank (h c List.mem_cons_self) [] g
    rw [List.nil_append, ih fun d hd => h d (List.mem_cons_of_mem _ hd)] at this
    exact this

theorem words_solid (h : ∀ c ∈ w, isBlank c = false) (hw : w ≠ []) : words w = [w] := by
  rw [words, splitWhere_of_none h]
  simp [hw]

/-- Blanks at either end belong to no word. -/
theorem words_blanks_append (h : ∀ c ∈ g, isBlank c = true) (t : Text) : words (g ++ t) = words t := by
  induction g with
  | nil => rfl
  | cons c g ih =>
    have := words_append_blank (h c List.mem_cons_self) [] (g ++ t)
    rw [ih fun d hd => h d (List.mem_cons_of_mem _ hd)] at this
    exact this

theorem words_append_blanks (h : ∀ c ∈ g, isBlank c = true) (t : Text) : words (t ++ g) = words t := by
  cases g with
  | nil => rw [List.append_nil]
  | cons c g =>
    rw [words_append_blank (h c List.mem_cons_self),
      words_blanks fun d hd => h d (List.mem_cons_of_mem _ hd), List.append_nil]

theorem words_trimStart (t : Text) : words t.trimStart = words t := by
  have lead : ∀ c ∈ t.takeWhile isBlank, isBlank c = true := List.all_eq_true.1 List.all_takeWhile
  have whole : t.takeWhile isBlank ++ t.trimStart = t := List.takeWhile_append_dropWhile
  rw [← words_blanks_append lead, whole]

theorem exists_trimEnd (t : Text) : ∃ g, t = t.trimEnd ++ g ∧ ∀ c ∈ g, isBlank c = true := by
  refine ⟨(t.reverse.takeWhile isBlank).reverse, ?_, fun c hc => ?_⟩
  · rw [trimEnd, dropTrailing, ← List.reverse_append, List.takeWhile_append_dropWhile,
      List.reverse_reverse]
  · exact List.all_eq_true.1 List.all_takeWhile c (List.mem_reverse.1 hc)

theorem words_trimEnd (t : Text) : words t.trimEnd = words t := by
  obtain ⟨g, whole, blank⟩ := exists_trimEnd t
  conv => rhs; rw [whole, words_append_blanks blank]

theorem trimStart_trimStart (t : Text) : t.trimStart.trimStart = t.trimStart := by
  have stop := List.head?_dropWhile_not isBlank t
  unfold trimStart
  cases h : t.dropWhile isBlank with
  | nil => rfl
  | cons c u =>
    rw [h] at stop
    exact List.dropWhile_cons_of_neg (by simpa using stop)

/-- Blanks before the first character that is none are passed; a text without blanks at its front that
ends another one ends it still when that one is trimmed. -/
theorem trimStart_suffix_trimStart {u : Text} (h : t.trimStart <:+ u) : t.trimStart <:+ u.trimStart := by
  obtain ⟨v, rfl⟩ := h
  have passed : trimStart (v ++ t.trimStart) =
      if (v.dropWhile isBlank).isEmpty then t.trimStart.trimStart
      else v.dropWhile isBlank ++ t.trimStart := List.dropWhile_append
  rw [passed, trimStart_trimStart]
  split
  · exact List.suffix_refl _
  · exact List.suffix_append _ _

theorem words_cons (hw : w ≠ []) (h : ∀ c ∈ w, isBlank c = false) (stop : t.head?.all isBlank = true) :
    words (w ++ t) = w :: words t := by
  cases t with
  | nil => rw [List.append_nil, words_solid h hw]; rfl
  | cons c t =>
    have hc : isBlank c = true := stop
    have rest := words_append_blank hc [] t
    rw [List.nil_append] at rest
    rw [words_append_blank hc, words_solid h hw, rest]
    rfl

theorem blank_of_words (h : words t = []) : ∀ c ∈ t, isBlank c = true := by
  intro c hc
  obtain ⟨u, v, rfl⟩ := List.append_of_mem hc
  cases hb : isBlank c with
  | true => rfl
  | false =>
    obtain ⟨piece, hp, hm⟩ := exists_mem_splitWhere hb u v
    have : piece ∈ words (u ++ c :: v) := List.mem_filter.2 ⟨hp, by simp [List.ne_nil_of_mem hm]⟩
    rw [h] at this
    cases this

/-- A text that is not blank is its first word between blanks. -/
theorem exists_first_word (h : words t ≠ []) :
    ∃ g w u, t = g ++ (w ++ u) ∧ (∀ c ∈ g, isBlank c = true) ∧ w ≠ [] ∧
      (∀ c ∈ w, isBlank c = false) ∧ u.head?.all isBlank = true := by
  have lead : ∀ c ∈ t.takeWhile isBlank, isBlank c = true := List.all_eq_true.1 List.all_takeWhile
  have whole := List.takeWhile_append_dropWhile (p := isBlank) (l := t)
  generalize t.takeWhile isBlank = g at *
  cases hd : t.dropWhile isBlank with
  | nil =>
    rw [hd, List.append_nil] at whole
    exact absurd (words_blanks (whole ▸ lead)) h
  | cons c v =>
    have first : isBlank c = false := by
      have := List.head?_dropWhile_not isBlank t
      rw [hd] at this
      exact this
    have next := List.takeWhile_append_dropWhile (p := (!isBlank ·)) (l := c :: v)
    refine ⟨g, (c :: v).takeWhile (!isBlank ·), (c :: v).dropWhile (!isBlank ·), ?_, lead, ?_, ?_, ?_⟩
    · rw [next, ← hd, whole]
    · simp [first]
    · intro d hd
      simpa using List.all_eq_true.1 List.all_takeWhile d hd
    · have := List.head?_dropWhile_not (!isBlank ·) (c :: v)
      cases h : ((c :: v).dropWhile (!isBlank ·)).head? with
      | none => rfl
      | some d => simpa [h] using this

end Words

section Lines
variable {t u v l : Text} {ls : List Text}

theorem lines_ne_nil (t : Text) : lines t ≠ [] := splitWhere_ne_nil _ t

theorem not_mem_of_mem_lines (h : l ∈ lines t) : '\n' ∉ l := fun hc =>
  absurd (of_mem_splitWhere h '\n' hc) (by decide)

theorem length_lines (t : Text) : (lines t).length = t.count '\n' + 1 := length_splitWhere _ t

theorem lines_append (u v : Text) : lines (u ++ '\n' :: v) = lines u ++ lines v :=
  splitWhere_append (by rfl) u v

theorem lines_eq_singleton (h : '\n' ∉ l) : lines l = [l] :=
  splitWhere_of_none fun c hc => by
    simp only [beq_eq_false_iff_ne]
    rintro rfl
    exact h hc

theorem lines_append_newline (h : '\n' ∉ l) (t : Text) : lines (l ++ '\n' :: t) = l :: lines t := by
  rw [lines_append, lines_eq_singleton h]
  rfl

/-- The only line, or the first line and what stands behind its line break. -/
theorem lines_cases (t : Text) :
    (lines t = [t] ∧ '\n' ∉ t) ∨ ∃ l u, '\n' ∉ l ∧ t = l ++ '\n' :: u ∧ lines t = l :: lines u := by
  by_cases h : '\n' ∈ t
  · obtain ⟨l, u, rfl, hl⟩ := List.eq_append_cons_of_mem h
    exact .inr ⟨l, u, hl, rfl, lines_append_newline hl u⟩
  · exact .inl ⟨lines_eq_singleton h, h⟩

/-- The first line, and nothing or the line break that ends it. -/
theorem exists_line (t : Text) :
    ∃ l u, t = l ++ u ∧ '\n' ∉ l ∧ (u = [] ∨ ∃ v, u = '\n' :: v) := by
  rcases lines_cases t with ⟨-, whole⟩ | ⟨l, u, oneLine, rfl, -⟩
  · exact ⟨t, [], by simp, whole, .inl rfl⟩
  · exact ⟨l, '\n' :: u, rfl, oneLine, .inr ⟨u, rfl⟩⟩

/-- What is read up to a line break goes over a text without one. -/
theorem ne_newline (h : '\n' ∉ l) : ∀ c ∈ l, (c != '\n') = true := by
  intro c hc
  rw [bne_iff_ne]
  rintro rfl
  exact h hc

theorem takeWhile_line (h : '\n' ∉ l) : l.takeWhile (· != '\n') = l := by
  have whole := takeWhile_stop (t := []) (ne_newline h) rfl
  rwa [List.append_nil] at whole

theorem head?_lines (t : Text) : (lines t).head? = some (t.takeWhile (· != '\n')) := by
  rcases lines_cases t with ⟨one, hl⟩ | ⟨l, u, hl, rfl, more⟩
  · rw [one, takeWhile_line hl]
    rfl
  · rw [more, takeWhile_stop (ne_newline hl) (by rfl)]
    rfl

theorem ofLines_lines (t : Text) : ofLines (lines t) = t := by
  rcases lines_cases t with ⟨one, -⟩ | ⟨l, u, -, rfl, more⟩
  · rw [one]
    simp [ofLines]
  · have rest := ofLines_lines u
    obtain ⟨first, ls, hu⟩ := List.exists_cons_of_ne_nil (lines_ne_nil u)
    rw [more]
    rw [hu] at rest ⊢
    rw [ofLines, List.intercalate] at rest ⊢
    rw [List.intersperse_cons_cons, List.flatten_cons, List.flatten_cons, rest]
    rfl
termination_by t.length
decreasing_by simp_all; omega

@[simp] theorem ofLines_nil : ofLines [] = [] := rfl

@[simp] theorem ofLines_singleton (l : Text) : ofLines [l] = l := by simp [ofLines]

theorem ofLines_cons (h : ls ≠ []) (l : Text) : ofLines (l :: ls) = l ++ '\n' :: ofLines ls := by
  obtain ⟨next, more, rfl⟩ := List.exists_cons_of_ne_nil h
  simp [ofLines, List.intercalate]

theorem words_ofLines (ls : List Text) : words (ofLines ls) = ls.flatMap words := by
  induction ls with
  | nil => rfl
  | cons l ls ih =>
    by_cases none : ls = []
    · simp [none]
    · rw [ofLines_cons none, words_append_blank (by decide), ih, List.flatMap_cons]

/-- Lines with their line breaks. -/
def written (ls : List Text) : Text := ls.flatMap (· ++ ['\n'])

theorem lines_written (h : ∀ l ∈ ls, '\n' ∉ l) (t : Text) :
    lines (written ls ++ t) = ls ++ lines t := by
  induction ls with
  | nil => rfl
  | cons l ls ih =>
    have first : written (l :: ls) ++ t = l ++ '\n' :: (written ls ++ t) := by simp [written]
    rw [first, lines_append_newline (h l List.mem_cons_self),
      ih fun x hx => h x (List.mem_cons_of_mem _ hx), List.cons_append]

theorem ofLines_append (ls : List Text) {rs : List Text} (hr : rs ≠ []) :
    ofLines (ls ++ rs) = written ls ++ ofLines rs := by
  induction ls with
  | nil => rfl
  | cons l ls ih =>
    rw [List.cons_append, ofLines_cons (by simp [hr]), ih, written, written, List.flatMap_cons]
    simp

theorem written_lines (x : Text) : written (lines x) = x ++ ['\n'] := by
  have whole := ofLines_append (lines x) (List.cons_ne_nil [] [])
  have split : lines x ++ [[]] = lines (x ++ ['\n']) := (lines_append x []).symm
  rw [split, ofLines_lines, ofLines_singleton, List.append_nil] at whole
  exact whole.symm

theorem getLast?_written (u : Text) (ls : List Text) :
    (u ++ '\n' :: written ls).getLast? = some '\n' := by
  rcases List.eq_nil_or_concat ls with rfl | ⟨init, y, rfl⟩
  · exact List.getLast?_concat
  · have shape : u ++ '\n' :: written (init ++ [y]) =
        (u ++ '\n' :: (written init ++ y)) ++ ['\n'] := by
      simp [written]
    rw [List.concat_eq_append, shape, List.getLast?_concat]

/-- A text without a line break ends within the line that it begins with. -/
theorem exists_append_of_oneLine {w rest : Text} (same : u ++ t = w ++ rest) (oneLine : '\n' ∉ w)
    (stop : t = [] ∨ ∃ z, t = '\n' :: z) : ∃ v, u = w ++ v ∧ rest = v ++ t := by
  rcases List.append_eq_append_iff.1 same with ⟨v, rfl, ht⟩ | ⟨v, whole, rest⟩
  · rcases stop with rfl | ⟨z, rfl⟩
    · obtain ⟨rfl, rfl⟩ := List.append_eq_nil_iff.1 ht.symm
      exact ⟨[], by simp, by simp⟩
    · cases v with
      | nil => exact ⟨[], by simp, by simpa using ht.symm⟩
      | cons d v =>
        obtain ⟨rfl, -⟩ := List.cons.inj ht
        simp at oneLine
  · exact ⟨v, whole, rest⟩

/-- Lines with the line breaks before them. -/
def broken (ls : List Text) : Text := ls.flatMap ('\n' :: ·)

theorem ofLines_cons_eq (l : Text) (ls : List Text) : ofLines (l :: ls) = l ++ broken ls := by
  induction ls generalizing l with
  | nil => simp [broken]
  | cons m ls ih =>
    rw [ofLines_cons (List.cons_ne_nil _ _), ih m, broken, broken, List.flatMap_cons, List.cons_append]

theorem broken_lines (t : Text) : broken (lines t) = '\n' :: t := by
  have whole := ofLines_cons_eq [] (lines t)
  rw [ofLines_cons (lines_ne_nil t), ofLines_lines, List.nil_append, List.nil_append] at whole
  exact whole.symm

theorem words_broken (ls : List Text) : words (broken ls) = ls.flatMap words := by
  have whole := words_ofLines ([] :: ls)
  rwa [ofLines_cons_eq, List.nil_append, List.flatMap_cons] at whole

/-- The first lines of a text can be split off if there are more lines behind them. -/
theorem exists_written {rs : List Text} (h : lines t = ls ++ rs) (hr : rs ≠ []) :
    ∃ u, t = written ls ++ u ∧ lines u = rs := by
  induction ls generalizing t with
  | nil => exact ⟨t, rfl, h⟩
  | cons l ls ih =>
    rcases lines_cases t with ⟨one, -⟩ | ⟨l', u, -, rfl, more⟩
    · rw [one, List.cons_append] at h
      obtain ⟨-, rest⟩ := List.cons.inj h
      exact absurd (List.append_eq_nil_iff.1 rest.symm).2 hr
    · rw [more, List.cons_append] at h
      obtain ⟨rfl, rest⟩ := List.cons.inj h
      obtain ⟨v, rfl, hv⟩ := ih rest
      exact ⟨v, by simp [written], hv⟩

/-- A run of lines without its last line break, and what follows. -/
theorem exists_lines_eq {rs : List Text} (h : lines t = ls ++ rs) (hl : ls ≠ []) :
    ∃ x tail, t = x ++ tail ∧ lines x = ls ∧
      (tail = [] ∧ rs = [] ∨ ∃ u, tail = '\n' :: u ∧ lines u = rs) := by
  induction ls generalizing t with
  | nil => exact absurd rfl hl
  | cons l ls ih =>
    rcases lines_cases t with ⟨one, -⟩ | ⟨l', u, plain, rfl, more⟩
    · rw [one, List.cons_append] at h
      obtain ⟨rfl, rest⟩ := List.cons.inj h
      obtain ⟨rfl, rfl⟩ := List.append_eq_nil_iff.1 rest.symm
      exact ⟨t, [], by simp, one, .inl ⟨rfl, rfl⟩⟩
    · rw [more, List.cons_append] at h
      obtain ⟨rfl, rest⟩ := List.cons.inj h
      by_cases last : ls = []
      · subst last
        exact ⟨l', '\n' :: u, rfl, lines_eq_singleton plain, .inr ⟨u, rfl, rest⟩⟩
      · obtain ⟨x, tail, rfl, hx, ends⟩ := ih rest last
        exact ⟨l' ++ '\n' :: x, tail, by simp, by rw [lines_append_newline plain, hx], ends⟩

/-- Text without a line break lengthens the last line. -/
theorem lines_concat (u : Text) (hv : '\n' ∉ v) :
    ∃ init last, lines u = init ++ [last] ∧ lines (u ++ v) = init ++ [last ++ v] := by
  rcases lines_cases u with ⟨one, hu⟩ | ⟨l, w, hl, rfl, more⟩
  · refine ⟨[], u, one, lines_eq_singleton ?_⟩
    simp [hu, hv]
  · obtain ⟨init, last, hw, hwv⟩ := lines_concat w hv
    refine ⟨l :: init, last, by rw [more, hw]; rfl, ?_⟩
    rw [List.append_assoc, List.cons_append, lines_append_newline hl, hwv]
    rfl
termination_by u.length
decreasing_by simp_all; omega

/-- So what it does not change about a line holds of all lines or of none. -/
theorem forall_lines_concat {P : Text → Prop} (hv : '\n' ∉ v) (same : ∀ y, P (y ++ v) ↔ P y) (u : Text) :
    (∀ y ∈ lines (u ++ v), P y) ↔ ∀ y ∈ lines u, P y := by
  obtain ⟨init, last, hu, huv⟩ := lines_concat u hv
  rw [hu, huv]
  simp only [List.forall_mem_append, List.forall_mem_singleton, same]

theorem isBlankLine_return (y : Text) : isBlankLine (y ++ ['\r']) = isBlankLine y := by
  have cr : isBlank '\r' = true := by decide
  simp [isBlankLine, cr]

/-- The lines that a part of a text stands on. -/
theorem exists_lines_append (u t v : Text) :
    ∃ before x y after, lines (u ++ (t ++ v)) = before ++ lines (x ++ (t ++ y)) ++ after ∧ '\n' ∉ x ∧
      '\n' ∉ y ∧ before.length = u.count '\n' := by
  rcases lines_cases u with ⟨-, oneLine⟩ | ⟨l, w, oneLine, rfl, -⟩
  · have count : u.count '\n' = 0 := List.count_eq_zero_of_not_mem oneLine
    rcases lines_cases v with ⟨-, last⟩ | ⟨y, z, last, rfl, -⟩
    · exact ⟨[], u, v, [], by simp, oneLine, last, count.symm⟩
    · refine ⟨[], u, y, lines z, ?_, oneLine, last, count.symm⟩
      have cut : u ++ (t ++ (y ++ '\n' :: z)) = (u ++ (t ++ y)) ++ '\n' :: z := by simp
      rw [cut, lines_append, List.nil_append]
  · obtain ⟨before, x, y, after, whole, first, last, count⟩ := exists_lines_append w t v
    refine ⟨l :: before, x, y, after, ?_, first, last, ?_⟩
    · have cut : l ++ '\n' :: w ++ (t ++ v) = l ++ '\n' :: (w ++ (t ++ v)) := by simp
      rw [cut, lines_append_newline oneLine, whole]
      rfl
    · rw [List.count_append, List.count_cons_self, List.count_eq_zero_of_not_mem oneLine, List.length_cons,
        count]
      omega
termination_by u.length
decreasing_by simp_all; omega

theorem isBlankLine_eq_false {c : Char} (hc : isBlank c = false) (h : c ∈ t) : t.isBlankLine = false := by
  rw [isBlankLine, List.all_eq_false]
  exact ⟨c, h, by simp [hc]⟩

theorem isBlankLine_trimEnd (t : Text) : t.trimEnd.isBlankLine = t.isBlankLine := by
  obtain ⟨g, whole, blank⟩ := exists_trimEnd t
  conv => rhs; rw [whole]
  rw [isBlankLine, isBlankLine, List.all_append, List.all_eq_true.2 blank, Bool.and_true]

theorem words_of_isBlankLine (h : t.isBlankLine = true) : words t = [] :=
  words_blanks (List.all_eq_true.1 h)

end Lines

section Tidy
variable {t u u' z l : Text} {solid : Bool}

/-- The text ends with a character that is not blank. -/
def Ended (t : Text) : Prop := ∃ c, t.getLast? = some c ∧ isBlank c = false

/-- Every line ends with a character that is not blank. For an empty first line `solid` tells it of
what stands before the text. -/
def tidyFrom : Bool → Text → Bool
  | solid, [] => solid
  | solid, c :: t => if c = '\n' then solid && tidyFrom false t else tidyFrom (!isBlank c) t

theorem Ended.cons (h : Ended t) (c : Char) : Ended (c :: t) := by
  obtain ⟨d, last, hd⟩ := h
  exact ⟨d, by rw [List.getLast?_cons, last]; rfl, hd⟩

theorem tidyFrom_append_congr (h : ∀ solid, tidyFrom solid u = tidyFrom solid u') (t : Text)
    (solid : Bool) : tidyFrom solid (t ++ u) = tidyFrom solid (t ++ u') := by
  induction t generalizing solid with
  | nil => exact h solid
  | cons c t ih =>
    rw [List.cons_append, List.cons_append, tidyFrom, tidyFrom]
    split
    · rw [ih]
    · exact ih _

/-- Behind a text on one line it only matters how that text ends. -/
theorem tidyFrom_append (hn : '\n' ∉ z) (hz : Ended z) (solid : Bool) (u : Text) :
    tidyFrom solid (z ++ u) = tidyFrom true u := by
  obtain ⟨c, last, hc⟩ := hz
  induction z generalizing solid with
  | nil => cases last
  | cons d z ih =>
    have line : d ≠ '\n' := fun h => hn (h ▸ List.mem_cons_self)
    rw [List.cons_append, tidyFrom, if_neg line]
    cases z with
    | nil =>
      have same : d = c := by simpa using last
      rw [same, hc]
      rfl
    | cons e z =>
      exact ih (fun h => hn (List.mem_cons_of_mem _ h)) _ (by rw [← last, List.getLast?_cons_cons])

theorem lines_of_tidyFrom (h : tidyFrom solid t = true) :
    ∃ first more, lines t = first :: more ∧ (first = [] ∧ solid = true ∨ Ended first) ∧
      ∀ l ∈ more, Ended l := by
  induction t generalizing solid with
  | nil => exact ⟨[], [], rfl, .inl ⟨rfl, h⟩, by simp⟩
  | cons c t ih =>
    rw [tidyFrom] at h
    split at h
    · next line =>
      subst line
      obtain ⟨first, more, ht, hf, hm⟩ := ih (Bool.and_eq_true_iff.1 h).2
      have cut : lines ('\n' :: t) = [] :: lines t := splitWhere_cons_of_pos (by rfl) t
      refine ⟨[], lines t, cut, .inl ⟨rfl, (Bool.and_eq_true_iff.1 h).1⟩, ?_⟩
      rw [ht]
      rintro l hl
      rcases List.mem_cons.1 hl with rfl | hl
      · exact hf.resolve_left (by simp)
      · exact hm l hl
    · next line =>
      obtain ⟨first, more, ht, hf, hm⟩ := ih h
      obtain ⟨first', more', ht', whole⟩ :=
        splitWhere_cons_of_neg (p := (· == '\n')) (by simpa using line) t
      obtain ⟨rfl, rfl⟩ := List.cons.inj (ht.symm.trans ht')
      refine ⟨c :: first, more, whole, .inr ?_, hm⟩
      rcases hf with ⟨rfl, hc⟩ | hf
      · exact ⟨c, rfl, by simpa using hc⟩
      · exact hf.cons c

theorem ended_of_tidy (h : tidyFrom false t = true) (hl : l ∈ lines t) : Ended l := by
  obtain ⟨first, more, ht, hf, hm⟩ := lines_of_tidyFrom h
  rw [ht] at hl
  rcases List.mem_cons.1 hl with rfl | hl
  · exact hf.resolve_left (by simp)
  · exact hm l hl

end Tidy

end HostSql.Text
