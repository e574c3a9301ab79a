import HostSql.Proofs.Mask.RoundTrip

/-! Which texts can stand between expressions. Only their braces count and, behind a brace that
nothing closes, their quotes. So a text with other blanks is split at the same expressions. -/
namespace HostSql.Mask
open Text (Respaced isPlain)

/-- No opening brace stands alone, or else `rest` is true of what follows the first such brace. -/
def clear (rest : Text → Bool) : Text → Bool
  | [] => true
  | '{' :: '{' :: t => clear rest t
  | '}' :: '}' :: t => clear rest t
  | '{' :: t => rest t
  | _ :: t => clear rest t

/-- Nothing closes a brace before the text. -/
def unclosed (t : Text) : Bool := (closing 1 none t).isNone

/-- Expressions are read as such whatever follows them. -/
structure Braced (e : Text) : Prop where
  first : ∃ c t, e = '{' :: c :: t ∧ c ≠ '{'
  last : e.getLast? = some '}'
  closed : ∀ rest, expression? (e ++ rest) = some (e, rest)

/-- A text and what follows it are split where the parts are. -/
def Clear : Text → List (Text × Text) → Prop
  | t, [] => clear unclosed t = true
  | t, (e, u) :: parts => clear (fun _ => false) t = true ∧ Braced e ∧ Clear u parts

section
variable {rest : Text → Bool} {c : Char} {g t t' e : Text} {depth : Nat} {quoted : Option Char}

theorem clear_cons (hopen : c ≠ '{') (hclose : c ≠ '}') : clear rest (c :: t) = clear rest t := by
  rw [clear]
  all_goals simp_all

theorem clear_open (h : t.head? ≠ some '{') : clear rest ('{' :: t) = rest t := by
  rw [clear]
  rintro u rfl
  exact h rfl

theorem clear_close (h : t.head? ≠ some '}') : clear rest ('}' :: t) = clear rest t := by
  rw [clear]
  · simp
  · rintro u - rfl
    exact h rfl
  · simp

theorem clear_append (hg : ∀ c ∈ g, c ≠ '{' ∧ c ≠ '}') (t : Text) :
    clear rest (g ++ t) = clear rest t := by
  induction g with
  | nil => rfl
  | cons c g ih =>
    obtain ⟨hopen, hclose⟩ := hg c List.mem_cons_self
    rw [List.cons_append, clear_cons hopen hclose, ih fun d hd => hg d (List.mem_cons_of_mem _ hd)]

theorem ne_brace_of_blank (h : isBlank c = true) : c ≠ '{' ∧ c ≠ '}' := by
  constructor <;> rintro rfl <;> exact absurd h (by decide)

theorem ne_brace_of_plain (h : isPlain c = true) : c ≠ '{' ∧ c ≠ '}' := by
  constructor <;> rintro rfl <;> exact absurd h (by decide)

theorem not_quote_of_blank (h : isBlank c = true) : isQuote c = false := by
  cases hq : isQuote c with
  | false => rfl
  | true =>
    simp only [isQuote, Bool.or_eq_true, beq_iff_eq] at hq
    rcases hq with rfl | rfl <;> exact absurd h (by decide)

theorem ne_brace_of_head (hg : ∀ c ∈ g, c ≠ '{' ∧ c ≠ '}') (filled : g ≠ []) (t : Text) :
    ∀ c, (g ++ t).head? = some c → c ≠ '{' ∧ c ≠ '}' := by
  obtain ⟨d, g, rfl⟩ := List.exists_cons_of_ne_nil filled
  rintro c hc
  cases hc
  exact hg d List.mem_cons_self

/-- Two texts are clear alike, also behind a brace. -/
def ClearAlike (rest : Text → Bool) (t t' : Text) : Prop :=
  clear rest t' = clear rest t ∧ clear rest ('{' :: t') = clear rest ('{' :: t) ∧
    clear rest ('}' :: t') = clear rest ('}' :: t)

/-- A brace before texts matters to them only if they begin with one. -/
theorem clearAlike_of_head (hr : rest t' = rest t) (same : clear rest t' = clear rest t)
    (first : ∀ c, t.head? = some c → c ≠ '{' ∧ c ≠ '}')
    (first' : ∀ c, t'.head? = some c → c ≠ '{' ∧ c ≠ '}') : ClearAlike rest t t' := by
  refine ⟨same, ?_, ?_⟩
  · rw [clear_open fun h => (first' _ h).1 rfl, clear_open fun h => (first _ h).1 rfl, hr]
  · rw [clear_close fun h => (first' _ h).2 rfl, clear_close fun h => (first _ h).2 rfl, same]

theorem clearAlike_append {g' : Text} (hg : ∀ c ∈ g, c ≠ '{' ∧ c ≠ '}')
    (hg' : ∀ c ∈ g', c ≠ '{' ∧ c ≠ '}') (filled : g ≠ []) (filled' : g' ≠ [])
    (hr : rest (g' ++ t') = rest (g ++ t)) (same : clear rest t' = clear rest t) :
    ClearAlike rest (g ++ t) (g' ++ t') := by
  refine clearAlike_of_head hr ?_ (ne_brace_of_head hg filled t) (ne_brace_of_head hg' filled' t')
  rw [clear_append hg, clear_append hg', same]

theorem clearAlike_cons (hr : rest (c :: t') = rest (c :: t)) (h : ClearAlike rest t t') :
    ClearAlike rest (c :: t) (c :: t') := by
  obtain ⟨same, opened, closed⟩ := h
  by_cases hopen : c = '{'
  · subst hopen
    refine ⟨opened, ?_, ?_⟩
    · rw [clear, clear, same]
    · rw [clear_close (by simp), clear_close (by simp), opened]
  · by_cases hclose : c = '}'
    · subst hclose
      refine ⟨closed, ?_, ?_⟩
      · rw [clear_open (by simp), clear_open (by simp), hr]
      · rw [clear, clear, same]
    · have plain : ∀ d ∈ [c], d ≠ '{' ∧ d ≠ '}' := List.forall_mem_singleton.2 ⟨hopen, hclose⟩
      exact clearAlike_append plain plain (List.cons_ne_nil _ _) (List.cons_ne_nil _ _) hr same

theorem clearAlike_respaced (hr : ∀ t t', Respaced t t' → rest t' = rest t) (h : Respaced t t') :
    ClearAlike rest t t' := by
  have blanks {g : Text} (hg : ∀ c ∈ g, isBlank c = true) : ∀ c ∈ g, c ≠ '{' ∧ c ≠ '}' :=
    fun c hc => ne_brace_of_blank (hg c hc)
  have plains {w : Text} (hw : ∀ c ∈ w, isPlain c = true) : ∀ c ∈ w, c ≠ '{' ∧ c ≠ '}' :=
    fun c hc => ne_brace_of_plain (hw c hc)
  induction h with
  | @ends g g' blank blank' =>
    have all {g : Text} (hg : ∀ c ∈ g, isBlank c = true) : clear rest g = true := by
      rw [← List.append_nil g, clear_append (blanks hg), clear]
    have first {g : Text} (hg : ∀ c ∈ g, isBlank c = true) :
        ∀ c, g.head? = some c → c ≠ '{' ∧ c ≠ '}' :=
      fun c hc => blanks hg c (List.mem_of_mem_head? hc)
    exact clearAlike_of_head (hr _ _ (.ends blank blank')) (by rw [all blank, all blank'])
      (first blank) (first blank')
  | @char c t t' solid more ih =>
    exact clearAlike_cons (hr _ _ (.char solid more)) ih
  | @gap g g' t t' blank blank' filled filled' more ih =>
    exact clearAlike_append (blanks blank) (blanks blank') filled filled'
      (hr _ _ (.gap blank blank' filled filled' more)) ih.1
  | @word w w' t t' plain plain' same stop stop' more ih =>
    by_cases none : w = []
    · subst none
      have none' : w' = [] := List.eq_nil_of_length_eq_zero same
      subst none'
      exact ih
    · have filled : w' ≠ [] := by
        rintro rfl
        exact none (List.eq_nil_of_length_eq_zero same.symm)
      exact clearAlike_append (plains plain) (plains plain') none filled
        (hr _ _ (.word plain plain' same stop stop' more)) ih.1

theorem clear_respaced (hr : ∀ t t', Respaced t t' → rest t' = rest t) (h : Respaced t t') :
    clear rest t' = clear rest t :=
  (clearAlike_respaced hr h).1

theorem closing_none (depth : Nat) (c : Char) (t : Text) :
    (closing depth none (c :: t)).isSome =
      if c = '}' then decide (depth ≤ 1) || (closing (depth - 1) none t).isSome
      else (closing (if c = '{' then depth + 1 else depth) (if isQuote c then some c else none)
        t).isSome := by
  rw [closing]
  split
  · split
    · next h => simp [h]
    · next h => simp [h]
  · simp

theorem closing_quoted (depth : Nat) (q c : Char) (t : Text) :
    (closing depth (some q) (c :: t)).isSome =
      (closing depth (if c = q then none else some q) t).isSome := by
  rw [closing]
  simp

/-- Characters that are no braces and no quotes are passed. -/
theorem closing_append (hq : ∀ q ∈ quoted, isQuote q = true)
    (hg : ∀ c ∈ g, (c ≠ '{' ∧ c ≠ '}') ∧ isQuote c = false) (t : Text) :
    (closing depth quoted (g ++ t)).isSome = (closing depth quoted t).isSome := by
  induction g with
  | nil => rfl
  | cons c g ih =>
    obtain ⟨⟨hopen, hclose⟩, plain⟩ := hg c List.mem_cons_self
    rw [List.cons_append]
    cases quoted with
    | none =>
      rw [closing_none, if_neg hclose, if_neg hopen, plain, if_neg (by simp),
        ih fun d hd => hg d (List.mem_cons_of_mem _ hd)]
    | some q =>
      have other : c ≠ q := by
        rintro rfl
        rw [hq c rfl] at plain
        cases plain
      rw [closing_quoted, if_neg other, ih fun d hd => hg d (List.mem_cons_of_mem _ hd)]

theorem closing_respaced (hq : ∀ q ∈ quoted, isQuote q = true) (h : Respaced t t') :
    (closing depth quoted t').isSome = (closing depth quoted t).isSome := by
  have blanks {g : Text} (hg : ∀ c ∈ g, isBlank c = true) :
      ∀ c ∈ g, (c ≠ '{' ∧ c ≠ '}') ∧ isQuote c = false := fun c hc =>
    ⟨ne_brace_of_blank (hg c hc), not_quote_of_blank (hg c hc)⟩
  have plains {g : Text} (hg : ∀ c ∈ g, isPlain c = true) :
      ∀ c ∈ g, (c ≠ '{' ∧ c ≠ '}') ∧ isQuote c = false := fun c hc =>
    ⟨ne_brace_of_plain (hg c hc), by have := hg c hc; simp [isPlain] at this; exact this.2⟩
  induction h generalizing depth quoted with
  | @ends g g' blank blank' =>
    rw [← List.append_nil g, ← List.append_nil g', closing_append hq (blanks blank),
      closing_append hq (blanks blank')]
  | @char c t t' _ _ ih =>
    cases quoted with
    | none =>
      have outside : ∀ q ∈ (none : Option Char), isQuote q = true := by simp
      rw [closing_none, closing_none, ih outside]
      congr 1
      refine ih fun q hm => ?_
      split at hm
      · next quote => cases hm; exact quote
      · cases hm
    | some q =>
      rw [closing_quoted, closing_quoted]
      refine ih fun r hm => ?_
      split at hm
      · cases hm
      · exact hq r hm
  | gap blank blank' _ _ _ ih =>
    rw [closing_append hq (blanks blank), closing_append hq (blanks blank'), ih hq]
  | word plain plain' _ _ _ _ ih =>
    rw [closing_append hq (plains plain), closing_append hq (plains plain'), ih hq]

theorem unclosed_respaced (h : Respaced t t') : unclosed t' = unclosed t := by
  have same : (closing 1 none t').isSome = (closing 1 none t).isSome :=
    closing_respaced (by simp) h
  unfold unclosed
  rw [← Option.not_isSome, ← Option.not_isSome, same]

/-! ## Where a text is split -/

theorem split_of_unclosed (h : clear unclosed t = true) : split t = (t, []) := by
  fun_induction clear unclosed t with
  | case1 => rw [split]
  | case2 t ih => rw [split, ih h]
  | case3 t ih => rw [split, ih h]
  | case4 t other =>
    have none : expression? ('{' :: t) = none := by
      have := closing_none 0 '{' t
      simp only [unclosed, Option.isNone_iff_eq_none] at h
      rw [if_neg (by decide), if_pos rfl, if_neg (by decide), h] at this
      exact Option.not_isSome_iff_eq_none.1 (by simp [expression?, this])
    rw [split]
    · split
      · rfl
      · next hs => rw [none] at hs; cases hs
    · exact other
  | case5 c t h1 h2 h3 ih =>
    rw [split, ih h]
    · exact h1
    · exact h2
    · exact h3

theorem split_append (h : clear (fun _ => false) t = true) (he : Braced e) (rest : Text) :
    split (t ++ (e ++ rest)) = (t, (e, (split rest).1) :: (split rest).2) := by
  obtain ⟨d, u, shape, first⟩ := he.first
  fun_induction clear (fun _ => false) t with
  | case1 =>
    have found := he.closed rest
    rw [shape, List.cons_append, List.cons_append] at found
    rw [List.nil_append, shape, List.cons_append, List.cons_append, split]
    · split
      · next hs => rw [found] at hs; cases hs
      · next hs =>
        rw [found] at hs
        cases hs
        rfl
    · rintro v hv
      exact first (List.cons.inj hv).1
  | case2 t ih => rw [List.cons_append, List.cons_append, split, ih h]
  | case3 t ih => rw [List.cons_append, List.cons_append, split, ih h]
  | case4 => cases h
  | case5 c t h1 h2 h3 ih =>
    rw [List.cons_append, split, ih h]
    · rintro v rfl hv
      exact h3 rfl
    · rintro v rfl hv
      cases t with
      | nil =>
        rw [List.nil_append, shape] at hv
        exact absurd (List.cons.inj hv).1 (by decide)
      | cons b t =>
        obtain ⟨rfl, -⟩ := List.cons.inj hv
        exact h2 t rfl rfl
    · exact fun hc => h3 hc

theorem split_of_clear {t : Text} {parts : List (Text × Text)} (h : Clear t parts) :
    split (t ++ parts.flatMap fun (e, u) => e ++ u) = (t, parts) := by
  induction parts generalizing t with
  | nil => simpa using split_of_unclosed h
  | cons x parts ih =>
    obtain ⟨e, u⟩ := x
    obtain ⟨first, braced, more⟩ := h
    have next : (t ++ ((e, u) :: parts).flatMap fun (e, u) => e ++ u) =
        t ++ (e ++ (u ++ parts.flatMap fun (e, u) => e ++ u)) := by simp
    rw [next, split_append first braced, ih more]

theorem Clear.of_clear {parts : List (Text × Text)}
    (same : ∀ rest, clear rest t' = clear rest t) (h : Clear t parts) : Clear t' parts := by
  cases parts with
  | nil => exact (same _).trans h
  | cons x parts => exact ⟨(same _).trans h.1, h.2⟩

theorem Clear.braced {parts : List (Text × Text)} (h : Clear t parts) :
    ∀ x ∈ parts, Braced x.1 := by
  induction parts generalizing t with
  | nil => simp
  | cons x parts ih =>
    intro y hy
    rcases List.mem_cons.1 hy with rfl | hy
    · exact h.2.1
    · exact ih h.2.2 y hy

/-- An expression is read up to the brace that closes it, which is its last character. -/
theorem closed_of_closing {depth : Nat} {quoted : Option Char} {t e rest : Text}
    (h : closing depth quoted t = some (e, rest)) (rest' : Text) :
    closing depth quoted (e ++ rest') = some (e, rest') := by
  fun_induction closing depth quoted t generalizing e with
  | case1 => cases h
  | case2 depth q c t ih =>
    obtain ⟨⟨e, r⟩, hc, heq⟩ := Option.map_eq_some_iff.1 h
    cases heq
    rw [List.cons_append, closing, ih hc]
    rfl
  | case3 depth t hd =>
    cases h
    rw [List.cons_append, closing, if_pos rfl, if_pos hd]
    rfl
  | case4 depth t hd ih =>
    obtain ⟨⟨e, r⟩, hc, heq⟩ := Option.map_eq_some_iff.1 h
    cases heq
    rw [List.cons_append, closing, if_pos rfl, if_neg hd, ih hc]
    rfl
  | case5 depth c t hc =>
    rename_i ih
    obtain ⟨⟨e, r⟩, hr, heq⟩ := Option.map_eq_some_iff.1 h
    cases heq
    rw [List.cons_append, closing, if_neg hc]
    exact congrArg (Option.map _) (ih hr)

theorem last_of_closing {depth : Nat} {quoted : Option Char} {t e rest : Text}
    (h : closing depth quoted t = some (e, rest)) : e.getLast? = some '}' := by
  fun_induction closing depth quoted t generalizing e with
  | case1 => cases h
  | case3 => cases h; rfl
  | case2 | case4 | case5 =>
    rename_i ih
    obtain ⟨⟨e, r⟩, hc, heq⟩ := Option.map_eq_some_iff.1 h
    cases heq
    rw [List.getLast?_cons, ih hc]
    rfl

theorem braced_of_expression {t e rest : Text} (h : expression? ('{' :: t) = some (e, rest))
    (single : t.head? ≠ some '{') : Braced e := by
  have whole := (append_of_closing h).1
  have last := last_of_closing h
  refine ⟨?_, last, closed_of_closing h⟩
  have first := head_of_closing h
  match e with
  | [] => cases first
  | [_] =>
    cases first
    cases last
  | _ :: c :: e =>
    cases first
    refine ⟨c, e, rfl, ?_⟩
    rintro rfl
    rw [List.cons_append, List.cons_append] at whole
    rw [(List.cons.inj whole).2] at single
    exact single rfl

/-- What a text is split into is split there. -/
theorem clear_split (t : Text) : Clear (split t).1 (split t).2 := by
  fun_induction split t with
  | case1 => rfl
  | case2 t lead parts hs ih =>
    rw [hs] at ih
    exact ih.of_clear fun rest => by rw [clear]
  | case3 t lead parts hs ih =>
    rw [hs] at ih
    exact ih.of_clear fun rest => by rw [clear]
  | case4 t single none =>
    have open' : clear unclosed ('{' :: t) = unclosed t := clear_open fun h => by
      obtain ⟨u, rfl⟩ := List.head?_eq_some_iff.1 h
      exact single u rfl
    have stays := closing_none 0 '{' t
    rw [if_neg (by decide), if_pos rfl, if_neg (by decide), show closing 0 Option.none ('{' :: t) = _ from none] at stays
    change clear unclosed ('{' :: t) = true
    rw [open', unclosed, ← Option.not_isSome]
    simpa using stays
  | case5 t single e rest hc lead parts hs ih =>
    rw [hs] at ih
    refine ⟨rfl, braced_of_expression hc fun h => ?_, ih⟩
    obtain ⟨u, rfl⟩ := List.head?_eq_some_iff.1 h
    exact single u rfl
  | case6 c t h1 h2 h3 lead parts hs ih =>
    have whole := (split_spec t).1
    rw [hs] at ih whole
    refine ih.of_clear fun rest => ?_
    have hopen : c ≠ '{' := fun hc => h3 hc
    by_cases hclose : c = '}'
    · subst hclose
      refine clear_close fun h => ?_
      obtain ⟨u, rfl⟩ := List.head?_eq_some_iff.1 h
      exact h2 _ rfl whole
    · exact clear_cons hopen hclose

end
end HostSql.Mask
