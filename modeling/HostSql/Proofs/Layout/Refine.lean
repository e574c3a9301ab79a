import HostSql.Layout.Refine
import HostSql.Proofs.Layout.Lines

/-! What the last touches leave alone. They move a line that starts a token or stands between tokens, and
they join two such lines; a line that starts inside a token stays a line, and so does the end of the
line before it. One joining step keeps this, and so does the whole run. -/
namespace HostSql.Layout
open Sql

/-! ## Lines -/

/-- The lines `ms` have the words of `ls`, and all lines of `ls` that start inside a token. What stands
before and behind such a line has its words still, and the line before it still ends as it did. -/
structure Preserves (ls ms : List Line) : Prop where
  words : wordsOf ms = wordsOf ls
  oneLine : (∀ l ∈ ls, '\n' ∉ l.text) → ∀ m ∈ ms, '\n' ∉ m.text
  line : ∀ {before c after}, ls = before ++ c :: after → c.continued = true →
    ∃ before' after', ms = before' ++ c :: after' ∧ wordsOf before' = wordsOf before ∧
      wordsOf after' = wordsOf after ∧ (before = [] → before' = []) ∧
      ∀ e ∈ before.getLast?, ∃ e' ∈ before'.getLast?, e.text.trimStart <:+ e'.text

section
variable {ls ms ns : List Line} {l m next : Line} {unit depth : Nat}

/-- Behind a line that ends as it did the last line still ends as it did. -/
theorem ends_cons {before before' : List Line} (ends : l.text.trimStart <:+ m.text)
    (first : before = [] → before' = [])
    (last : ∀ e ∈ before.getLast?, ∃ e' ∈ before'.getLast?, e.text.trimStart <:+ e'.text) :
    ∀ e ∈ (l :: before).getLast?, ∃ e' ∈ (m :: before').getLast?, e.text.trimStart <:+ e'.text := by
  intro e he
  cases hb : before.getLast? with
  | none =>
    obtain rfl := List.getLast?_eq_none_iff.1 hb
    obtain rfl := first rfl
    cases he
    exact ⟨m, rfl, ends⟩
  | some b =>
    rw [List.getLast?_cons, hb] at he
    cases he
    obtain ⟨e', he', ended⟩ := last b hb
    exact ⟨e', by rw [List.getLast?_cons, he']; rfl, ended⟩

theorem Preserves.refl (ls : List Line) : Preserves ls ls where
  words := rfl
  oneLine := id
  line := fun whole _ => ⟨_, _, whole, rfl, rfl, id, fun e he => ⟨e, he, List.dropWhile_suffix _⟩⟩

theorem Preserves.trans (h : Preserves ls ms) (h' : Preserves ms ns) : Preserves ls ns where
  words := h'.words.trans h.words
  oneLine := h'.oneLine ∘ h.oneLine
  line := by
    intro before c after whole continued
    obtain ⟨before', after', whole', front, back, first, ends⟩ := h.line whole continued
    obtain ⟨before'', after'', whole'', front', back', first', ends'⟩ := h'.line whole' continued
    refine ⟨before'', after'', whole'', front'.trans front, back'.trans back,
      fun none => first' (first none), fun e he => ?_⟩
    obtain ⟨e', he', ended⟩ := ends e he
    obtain ⟨e'', he'', ended'⟩ := ends' e' he'
    exact ⟨e'', he'', (Text.trimStart_suffix_trimStart ended).trans ended'⟩

/-- Only the line at the front is another one, with the words and the end of a line that was there. -/
theorem Preserves.front (hl : l.continued = false) (words : m.text.words = l.text.words)
    (oneLine : '\n' ∉ l.text → '\n' ∉ m.text) (ends : l.text.trimStart <:+ m.text)
    (h : Preserves ls ms) : Preserves (l :: ls) (m :: ms) where
  words := by rw [wordsOf_cons, wordsOf_cons, words, h.words]
  oneLine := fun all => by
    obtain ⟨first, rest⟩ := List.forall_mem_cons.1 all
    exact List.forall_mem_cons.2 ⟨oneLine first, h.oneLine rest⟩
  line := by
    intro before c after whole continued
    cases before with
    | nil =>
      obtain ⟨rfl, -⟩ := List.cons.inj whole
      rw [hl] at continued
      cases continued
    | cons b before =>
      obtain ⟨rfl, rest⟩ := List.cons.inj whole
      obtain ⟨before', after', rfl, front, back, first, last⟩ := h.line rest continued
      refine ⟨m :: before', after', rfl, ?_, back, nofun, ends_cons ends first last⟩
      rw [wordsOf_cons, wordsOf_cons, words, front]

theorem Preserves.cons (l : Line) (h : Preserves ls ms) : Preserves (l :: ls) (l :: ms) where
  words := by rw [wordsOf_cons, wordsOf_cons, h.words]
  oneLine := fun all => by
    obtain ⟨first, rest⟩ := List.forall_mem_cons.1 all
    exact List.forall_mem_cons.2 ⟨first, h.oneLine rest⟩
  line := by
    intro before c after whole continued
    cases before with
    | nil =>
      obtain ⟨rfl, rfl⟩ := List.cons.inj whole
      exact ⟨[], ms, rfl, rfl, h.words, id, nofun⟩
    | cons b before =>
      obtain ⟨rfl, rest⟩ := List.cons.inj whole
      obtain ⟨before', after', rfl, front, back, first, last⟩ := h.line rest continued
      refine ⟨l :: before', after', rfl, ?_, back, nofun,
        ends_cons (List.dropWhile_suffix _) first last⟩
      rw [wordsOf_cons, wordsOf_cons, front]

/-- Two lines are joined. The second one is the line that others may follow. -/
theorem Preserves.join (hl : l.continued = false) (hn : next.continued = false)
    (words : m.text.words = l.text.words ++ next.text.words)
    (oneLine : '\n' ∉ l.text → '\n' ∉ next.text → '\n' ∉ m.text)
    (ends : next.text.trimStart <:+ m.text) : Preserves (l :: next :: ls) (m :: ls) where
  words := by rw [wordsOf_cons, wordsOf_cons, wordsOf_cons, words, List.append_assoc]
  oneLine := fun all => by
    obtain ⟨first, rest⟩ := List.forall_mem_cons.1 all
    obtain ⟨second, rest⟩ := List.forall_mem_cons.1 rest
    exact List.forall_mem_cons.2 ⟨oneLine first second, rest⟩
  line := by
    intro before c after whole continued
    match before with
    | [] =>
      obtain ⟨rfl, -⟩ := List.cons.inj whole
      rw [hl] at continued
      cases continued
    | [b] =>
      obtain ⟨-, rest⟩ := List.cons.inj whole
      obtain ⟨rfl, -⟩ := List.cons.inj rest
      rw [hn] at continued
      cases continued
    | b :: b' :: before =>
      obtain ⟨rfl, rest⟩ := List.cons.inj whole
      obtain ⟨rfl, rfl⟩ := List.cons.inj rest
      have last := ends_cons ends id fun e (he : e ∈ before.getLast?) =>
        ⟨e, he, List.dropWhile_suffix _⟩
      refine ⟨m :: before, after, rfl, ?_, rfl, nofun, ?_⟩
      · rw [wordsOf_cons, wordsOf_cons, wordsOf_cons, words, List.append_assoc]
      · rw [List.getLast?_cons_cons]
        exact last

/-- A line moves by blanks of its indentation only. -/
theorem preserves_dedent (l : Line) (h : Preserves ls ms) :
    Preserves (l :: ls) (dedent unit depth l :: ms) := by
  unfold dedent
  split
  · exact h.cons l
  · next hl =>
    have lead : l.text.indentation ++ l.text.dropWhile isIndent = l.text :=
      List.takeWhile_append_dropWhile
    have blank : ∀ c ∈ l.text.indentation, isBlank c = true := fun c hc =>
      isBlank_of_isIndent (List.all_eq_true.1 List.all_takeWhile c hc)
    have few : min unit (indentWidth l.text - depth) ≤ l.text.indentation.length := by
      unfold indentWidth
      omega
    generalize min unit (indentWidth l.text - depth) = n at few
    have moved : l.text.drop n = l.text.indentation.drop n ++ l.text.dropWhile isIndent := by
      conv => lhs; rw [← lead]
      exact List.drop_append_of_le_length few
    have blank' : ∀ c ∈ l.text.indentation.drop n, isBlank c = true := fun c hc =>
      blank c (List.mem_of_mem_drop hc)
    refine h.front (by simpa using hl) ?_ (fun plain mem => plain (List.mem_of_mem_drop mem)) ?_
    · dsimp only
      rw [moved, Text.words_blanks_append blank']
      conv => rhs; rw [← lead, Text.words_blanks_append blank]
    · have passed : l.text.trimStart = Text.trimStart (l.text.dropWhile isIndent) := by
        conv => lhs; rw [← lead]
        exact List.dropWhile_append_of_pos blank
      dsimp only
      rw [moved, passed]
      exact (List.dropWhile_suffix _).trans (List.suffix_append _ _)

theorem preserves_map_dedent (body rest : List Line) :
    Preserves (body ++ rest) (body.map (dedent unit depth) ++ rest) := by
  induction body with
  | nil => exact .refl rest
  | cons l body ih => exact preserves_dedent l ih

/-- One joining step. -/
theorem preserves_merge (h : merge? unit l ls = some (m, ms)) : Preserves (l :: ls) (m :: ms) := by
  unfold merge? at h
  dsimp only at h
  split at h
  · cases h
  next clause =>
  split at h
  · cases h
  next next body hb =>
  split at h
  · next mergeable =>
    cases h
    have hl : l.continued = false := by
      cases hc : l.continued with
      | false => rfl
      | true => simp [hc] at clause
    have hn : next.continued = false := by
      have := (Bool.and_eq_true_iff.1 mergeable).2
      cases hc : next.continued with
      | false => rfl
      | true => simp [canMerge, hc] at this
    have whole : ls = next :: (body ++ ls.dropWhile (isNested (indentWidth l.text))) := by
      rw [← List.cons_append, ← hb, List.takeWhile_append_dropWhile]
    conv => lhs; rw [whole]
    refine (Preserves.join (m := ⟨l.text.trimEnd ++ ' ' :: next.text.trimStart, l.continued⟩) hl hn
      ?_ ?_ ?_).trans ((preserves_map_dedent _ _).cons _)
    · dsimp only
      rw [Text.words_append_blank (by decide), Text.words_trimEnd, Text.words_trimStart]
    · intro first second mem
      rcases List.mem_append.1 mem with mem | mem
      · obtain ⟨g, whole, -⟩ := Text.exists_trimEnd l.text
        exact first (whole ▸ List.mem_append_left _ mem)
      · rcases List.mem_cons.1 mem with same | mem
        · exact absurd same (by decide)
        · exact second ((List.dropWhile_suffix _).subset mem)
    · exact (List.suffix_cons ' ' _).trans (List.suffix_append _ _)
  · cases h

theorem joinClauses_merged (h : merge? unit l ls = some (m, ms)) :
    joinClauses unit (l :: ls) = m :: joinClauses unit ms := by
  rw [joinClauses]
  split
  · next merged =>
    cases merged.symm.trans h
    rfl
  · next none => cases none.symm.trans h

theorem joinClauses_kept (h : merge? unit l ls = none) :
    joinClauses unit (l :: ls) = l :: joinClauses unit ls := by
  rw [joinClauses]
  split
  · next merged => cases merged.symm.trans h
  · rfl

theorem preserves_joinClauses (unit : Nat) (ls : List Line) : Preserves ls (joinClauses unit ls) := by
  fun_induction joinClauses unit ls with
  | case1 => exact .refl []
  | case2 l rest m more merged ih => exact (preserves_merge merged).trans (ih.cons m)
  | case3 l rest kept ih => exact ih.cons l

end

/-! ## Texts -/

/-- Texts for tokens, the names of known functions that are called in upper or lower case, all others
as they are. -/
inductive Recased : List Token → List Text → Prop
  | nil : Recased [] []
  | same (k : Token) {ks : List Token} {ts : List Text} (more : Recased ks ts) :
      Recased (k :: ks) (k.text :: ts)
  | called {k paren : Token} {ks : List Token} {x : Text} {ts : List Text} (word : k.kind = .word)
      (known : isKnownFunction k.text = true) (opened : paren.isSymbol "(" = true)
      (cased : x = k.text.upper ∨ x = k.text.lower) (more : Recased (paren :: ks) ts) :
      Recased (k :: paren :: ks) (x :: ts)

theorem recased_recase (uppercase : Bool) (ks : List Token) : Recased ks (recase uppercase ks) := by
  induction ks with
  | nil => exact .nil
  | cons k ks ih =>
    rw [recase]
    split
    · next called =>
      simp only [Bool.and_eq_true, beq_iff_eq] at called
      obtain ⟨⟨word, opened⟩, known⟩ := called
      cases ks with
      | nil => cases opened
      | cons paren ks =>
        refine .called word known opened ?_ ih
        split
        · exact .inl rfl
        · exact .inr rfl
    · exact .same k ih

theorem utf8Size_cased (c : Char) :
    c.toUpper.utf8Size = c.utf8Size ∧ c.toLower.utf8Size = c.utf8Size := by
  by_cases small : c.toNat < 128
  · have each : ∀ n < 128, (Char.ofNat n).toUpper.utf8Size = (Char.ofNat n).utf8Size ∧
        (Char.ofNat n).toLower.utf8Size = (Char.ofNat n).utf8Size := by decide
    have own := each c.toNat small
    rwa [Char.ofNat_toNat] at own
  · have upper : c.toUpper = c := by
      unfold Char.toUpper
      rw [dif_neg]
      intro letter
      exact small (Nat.lt_of_le_of_lt (UInt32.le_iff_toNat_le.1 letter.2) (by decide))
    have lower : c.toLower = c := by
      unfold Char.toLower
      rw [dif_neg]
      intro letter
      exact small (Nat.lt_of_le_of_lt (UInt32.le_iff_toNat_le.1 letter.2) (by decide))
    rw [upper, lower]
    exact ⟨rfl, rfl⟩

theorem size_cased (t : Text) : Text.size t.upper = t.size ∧ Text.size t.lower = t.size := by
  induction t with
  | nil => exact ⟨rfl, rfl⟩
  | cons c t ih =>
    obtain ⟨upper, lower⟩ := utf8Size_cased c
    obtain ⟨more, more'⟩ := ih
    constructor
    · rw [Text.upper, List.map_cons, Text.size_cons, Text.size_cons, upper, ← more, Text.upper]
    · rw [Text.lower, List.map_cons, Text.size_cons, Text.size_cons, lower, ← more', Text.lower]

/-- Casing moves no token. -/
theorem Recased.spans {ks : List Token} {ts : List Text} (h : Recased ks ts) (n : Nat) :
    spansFrom n ts = spansFrom n (texts ks) := by
  induction h generalizing n with
  | nil => rfl
  | same k more ih => rw [texts_cons, spansFrom, spansFrom, ih]
  | @called k paren ks x ts word known opened cased more ih =>
    have size : x.size = k.text.size := by
      rcases cased with rfl | rfl
      · exact (size_cased k.text).1
      · exact (size_cased k.text).2
    rw [texts_cons, spansFrom, spansFrom, size, ih]

/-- Two lines of a text, one behind the other, with what stands before the first and behind the
second. -/
structure Neighbours (t u e l v : Text) : Prop where
  whole : t = u ++ (e ++ '\n' :: (l ++ v))
  start : u = [] ∨ ∃ x, u = x ++ ['\n']
  first : '\n' ∉ e
  second : '\n' ∉ l
  stop : v = [] ∨ ∃ x, v = '\n' :: x

/-- What follows `u` in texts that stand one behind the other is a line break, inside one of them. -/
def BreaksInside (ts : List Text) (u : Text) : Prop :=
  ∃ before a b after, ts = before ++ (a ++ '\n' :: b) :: after ∧ b ≠ [] ∧ u = before.flatten ++ a

section
variable {t u e l v : Text}

/-- Neighbouring lines are two of the lines of a text. -/
theorem Neighbours.exists_lines (h : Neighbours t u e l v) :
    ∃ before after, Text.lines (u ++ e) = before ++ [e] ∧ Text.lines (l ++ v) = l :: after ∧
      Text.broken after = v := by
  obtain ⟨-, start, first, second, stop⟩ := h
  have front : ∃ before, Text.lines (u ++ e) = before ++ [e] := by
    rcases start with rfl | ⟨x, rfl⟩
    · exact ⟨[], Text.lines_eq_singleton first⟩
    · refine ⟨Text.lines x, ?_⟩
      rw [List.append_assoc, List.singleton_append, Text.lines_append, Text.lines_eq_singleton first]
  obtain ⟨before, front⟩ := front
  rcases stop with rfl | ⟨x, rfl⟩
  · exact ⟨before, [], front, by rw [List.append_nil, Text.lines_eq_singleton second], rfl⟩
  · exact ⟨before, Text.lines x, front, Text.lines_append_newline second x, Text.broken_lines x⟩

theorem neighbours_ofLines {before after : List Text} (first : '\n' ∉ e) (second : '\n' ∉ l) :
    Neighbours (Text.ofLines (before ++ e :: l :: after)) (Text.written before) e l
      (Text.broken after) where
  whole := by
    rw [Text.ofLines_append _ (List.cons_ne_nil _ _), Text.ofLines_cons (List.cons_ne_nil _ _),
      Text.ofLines_cons_eq]
  start := by
    rcases List.eq_nil_or_concat before with rfl | ⟨init, x, rfl⟩
    · exact .inl rfl
    · exact .inr ⟨Text.written init ++ x, by simp [Text.written]⟩
  first := first
  second := second
  stop := by
    cases after with
    | nil => exact .inl rfl
    | cons x after => exact .inr ⟨x ++ Text.broken after, by simp [Text.broken]⟩

end

/-- Where a line break lies inside a text, the lines around it stay neighbours. -/
theorem Preserves.neighbours {ts : List Text} {ms : List Line} {u e l v : Text}
    (preserves : Preserves (linesWith ts.flatten (spansFrom 0 ts)) ms)
    (neighbours : Neighbours ts.flatten u e l v) (inside : BreaksInside ts (u ++ e)) :
    ∃ p e' q, Neighbours (Text.ofLines (ms.map (·.text))) p e' l q ∧ e.trimStart <:+ e' ∧
      Text.words (p ++ e') = Text.words (u ++ e) ∧ Text.words q = Text.words v := by
  have plain : ∀ m ∈ ms, '\n' ∉ m.text := by
    refine preserves.oneLine fun x hx => Text.not_mem_of_mem_lines (t := ts.flatten) ?_
    rw [← map_text_linesWith]
    exact List.mem_map_of_mem hx
  obtain ⟨xs, a, b, ys, rfl, hb, front⟩ := inside
  obtain ⟨before, line, after, cut, continued, above, below⟩ :=
    exists_linesWith xs ys a hb
  obtain ⟨before', after', rfl, words, words', -, ends⟩ := preserves.line cut continued
  obtain ⟨us, vs, hu, hl, hv⟩ := neighbours.exists_lines
  have rest : b ++ ys.flatten = l ++ v := by
    have same : (xs.flatten ++ a) ++ '\n' :: (b ++ ys.flatten) = (u ++ e) ++ '\n' :: (l ++ v) := by
      simpa using neighbours.whole
    rw [front] at same
    exact (List.cons.inj (List.append_cancel_left same)).2
  rw [rest, hl, List.map_cons] at below
  obtain ⟨text, later⟩ := List.cons.inj below
  rw [← front, hu] at above
  obtain ⟨above', last, rfl, -, one⟩ := List.map_eq_append_iff.1 above
  obtain ⟨k, rfl, hk⟩ := List.map_eq_singleton_iff.1 one
  obtain ⟨k', last', ended⟩ := ends k List.getLast?_concat
  obtain ⟨init, rfl⟩ := List.getLast?_eq_some_iff.1 last'
  refine ⟨Text.written (init.map (·.text)), k'.text, Text.broken (after'.map (·.text)), ?_, ?_, ?_, ?_⟩
  · have shape : (init ++ [k'] ++ line :: after').map (·.text) =
        init.map (·.text) ++ k'.text :: l :: after'.map (·.text) := by
      simp [text]
    rw [shape]
    exact neighbours_ofLines (plain k' (by simp)) neighbours.second
  · rw [← hk]
    exact ended
  · have whole := Text.ofLines_append (init.map (·.text)) (List.cons_ne_nil k'.text [])
    have joined : init.map (·.text) ++ [k'.text] = (init ++ [k']).map (·.text) := by simp
    rw [Text.ofLines_singleton, joined] at whole
    rw [← whole, words_ofLines_map, words, ← words_ofLines_map, above, ← hu, Text.ofLines_lines]
  · rw [Text.words_broken, List.flatMap_map, ← hv, Text.words_broken, ← later, List.flatMap_map]
    exact words'

/-- The last touches keep the words of a text, but for the case of the names of known functions that are
called. A text that cannot be cut into tokens stays as it is. Where a line break lies inside a token,
it stays one: the line behind it comes out as it was, and the line before it ends as it did. -/
theorem refine_keeps_lines (d : Dialect) (c : Config) (sql : Text) :
    (tokenize d sql = none → refine d c sql = sql) ∧
    ∀ tokens ts, tokenize d sql = some tokens → ts = recase c.uppercase (tokens.map (·.token)) →
      (texts (tokens.map (·.token))).flatten = sql ∧ Recased (tokens.map (·.token)) ts ∧
        Text.words (refine d c sql) = Text.words ts.flatten ∧
        ∀ u e l v, Neighbours ts.flatten u e l v → BreaksInside ts (u ++ e) →
          ∃ p e' q, Neighbours (refine d c sql) p e' l q ∧ e.trimStart <:+ e' ∧
            Text.words (p ++ e') = Text.words (u ++ e) ∧ Text.words q = Text.words v := by
  constructor
  · intro none
    rw [refine, none]
  intro tokens ts tokenized cased
  obtain ⟨ks, lexes, rfl⟩ := tokenize_eq_some_iff.1 tokenized
  rw [map_token_spanned] at cased ⊢
  have recased : Recased ks ts := cased ▸ recased_recase c.uppercase ks
  have whole : refine d c sql = Text.ofLines
      ((joinClauses c.indent (linesWith ts.flatten (spansFrom 0 ts))).map (·.text)) := by
    rw [refine, tokenized]
    dsimp only
    rw [map_token_spanned, map_span_spanned, ← recased.spans, ← cased]
  have preserves := preserves_joinClauses c.indent (linesWith ts.flatten (spansFrom 0 ts))
  refine ⟨lexes.flatten, recased, ?_, fun u e l v neighbours inside => ?_⟩
  · rw [whole, words_ofLines_map, preserves.words, ← words_ofLines_map, map_text_linesWith,
      Text.ofLines_lines]
  · rw [whole]
    exact preserves.neighbours neighbours inside

/-- A clause before a string on two lines and a call. -/
def clauseBeforeString : Text := "from\n 'a\n b'\n sum(x)".toList

/-- The clause is joined with the line that starts the string; the line that goes on stays. -/
theorem refine_keeps_lines_clauseBeforeString :
    refine .databricks {} clauseBeforeString = "from 'a\n b'\nSUM(x)".toList ∧
      ∃ p e' q, Neighbours (refine .databricks {} clauseBeforeString) p e' " b'".toList q ∧
        "'a".toList <:+ e' ∧
        Text.words (p ++ e') = ["from".toList, "'a".toList] ∧ Text.words q = ["SUM(x)".toList] := by
  have tokenized : tokenize .databricks clauseBeforeString = some (spanned 0 [
      ⟨.word, "from".toList⟩, ⟨.blank, "\n".toList⟩, ⟨.blank, " ".toList⟩,
      ⟨.string .single, "'a\n b'".toList⟩, ⟨.blank, "\n".toList⟩, ⟨.blank, " ".toList⟩,
      ⟨.word, "sum".toList⟩, ⟨.symbol, "(".toList⟩, ⟨.word, "x".toList⟩, ⟨.symbol, ")".toList⟩]) := by
    with_unfolding_all decide
  have cased : ["from", "\n", " ", "'a\n b'", "\n", " ", "SUM", "(", "x", ")"].map String.toList =
      recase true [⟨.word, "from".toList⟩, ⟨.blank, "\n".toList⟩, ⟨.blank, " ".toList⟩,
        ⟨.string .single, "'a\n b'".toList⟩, ⟨.blank, "\n".toList⟩, ⟨.blank, " ".toList⟩,
        ⟨.word, "sum".toList⟩, ⟨.symbol, "(".toList⟩, ⟨.word, "x".toList⟩, ⟨.symbol, ")".toList⟩] := by
    decide
  have joined : joinClauses 4 [⟨"from".toList, false⟩, ⟨" 'a".toList, false⟩, ⟨" b'".toList, true⟩,
      ⟨" SUM(x)".toList, false⟩] =
        [⟨"from 'a".toList, false⟩, ⟨" b'".toList, true⟩, ⟨"SUM(x)".toList, false⟩] := by
    have merged : merge? 4 ⟨"from".toList, false⟩ [⟨" 'a".toList, false⟩, ⟨" b'".toList, true⟩,
        ⟨" SUM(x)".toList, false⟩] =
          some (⟨"from 'a".toList, false⟩, [⟨" b'".toList, true⟩, ⟨"SUM(x)".toList, false⟩]) := by
      decide
    rw [joinClauses_merged merged, joinClauses_kept (by decide), joinClauses_kept (by decide),
      joinClauses]
  constructor
  · rw [refine, tokenized]
    dsimp only
    rw [map_token_spanned, ← cased]
    exact congrArg (fun ls : List Line => Text.ofLines (ls.map (·.text))) joined
  obtain ⟨-, -, -, lines⟩ :=
    (refine_keeps_lines .databricks {} clauseBeforeString).2 _ _ tokenized cased
  obtain ⟨p, e', q, neighbours, ended, words, words'⟩ :=
    lines "from\n".toList " 'a".toList " b'".toList "\n SUM(x)".toList
      ⟨by decide, .inr ⟨"from".toList, by decide⟩, by decide, by decide,
        .inr ⟨" SUM(x)".toList, by decide⟩⟩
      ⟨["from".toList, "\n".toList, " ".toList], "'a".toList, " b'".toList,
        ["\n", " ", "SUM", "(", "x", ")"].map String.toList, by decide, by decide, by decide⟩
  exact ⟨p, e', q, neighbours, ended, words.trans (by decide), words'.trans (by decide)⟩

end HostSql.Layout
