import HostSql.Proofs.Mask.Arrangement

/-! What masking takes for an expression, told by how deep braces nest. An expression runs from a brace that
is not doubled to the first one at which the depth is zero again; between expressions stand doubled braces
only, up to a brace from which the depth never comes back to zero. -/
namespace HostSql.Mask

/-- How deep braces nest behind a text, and the quote that is still open there. -/
structure Nesting where
  depth : Int
  quoted : Option Char

namespace Nesting

/-- Braces and quotes do not count between two equal quotes. -/
def next (s : Nesting) (c : Char) : Nesting :=
  match s.quoted with
  | some q => if c = q then { s with quoted := none } else s
  | none =>
    if c = '{' then { s with depth := s.depth + 1 }
    else if c = '}' then { s with depth := s.depth - 1 }
    else if isQuote c then { s with quoted := some c }
    else s

def past (s : Nesting) (t : Text) : Nesting := t.foldl next s

/-- The whole text brings the depth to zero, and no beginning of it does. -/
def Closes (s : Nesting) (t : Text) : Prop :=
  (s.past t).depth = 0 ∧ ∀ u v, t = u ++ v → v ≠ [] → 0 < (s.past u).depth

/-- Nothing in the text brings the depth to zero. -/
def Stays (s : Nesting) (t : Text) : Prop := ∀ u v, t = u ++ v → 0 < (s.past u).depth

end Nesting

/-- The nesting behind a text that begins outside all braces and quotes. -/
def nesting (t : Text) : Nesting := Nesting.past ⟨0, none⟩ t

/-- A text from a brace that is not doubled to the one that closes it. -/
structure IsExpression (e : Text) : Prop where
  single : ∃ c t, e = '{' :: c :: t ∧ c ≠ '{'
  last : e.getLast? = some '}'
  closed : (nesting e).depth = 0
  inside : ∀ u v, e = u ++ v → u ≠ [] → v ≠ [] → 0 < (nesting u).depth

/-- Every opening brace is one of two that stand together, the first of them with the second. -/
inductive Paired : Text → Prop
  | nil : Paired []
  | pair {t : Text} (h : Paired t) : Paired ('{' :: '{' :: t)
  | other {c : Char} {t : Text} (hc : c ≠ '{') (h : Paired t) : Paired (c :: t)

/-- Every opening brace is, up to the first one that is not doubled, and `rest` holds of what follows that. -/
def PairedTo (rest : Text → Prop) (t : Text) : Prop :=
  ∃ u v, t = u ++ '{' :: v ∧ Paired u ∧ v.head? ≠ some '{' ∧ rest v

/-- From the brace before the text on the depth never is zero. -/
def NeverClosed (t : Text) : Prop := ∀ u v, '{' :: t = u ++ v → u ≠ [] → 0 < (nesting u).depth

/-- A text and the expressions behind it, each with the text up to the next one. -/
def Parted : Text → List (Text × Text) → Prop
  | t, [] => Paired t ∨ PairedTo NeverClosed t
  | t, (e, u) :: parts => Paired t ∧ IsExpression e ∧ Parted u parts

section
variable {s : Nesting} {c q : Char} {t u e rest raw : Text} {depth : Nat} {quoted : Option Char}
  {parts : List (Text × Text)} {m : Masked}

namespace Nesting

theorem forall_append_cons {P : Text → Text → Prop} :
    (∀ u v, c :: t = u ++ v → P u v) ↔ P [] (c :: t) ∧ ∀ u v, t = u ++ v → P (c :: u) v := by
  constructor
  · exact fun h => ⟨h [] _ rfl, fun u v hu => h (c :: u) v (congrArg (c :: ·) hu)⟩
  · rintro ⟨front, more⟩ u v whole
    cases u with
    | nil => exact (show c :: t = v from whole) ▸ front
    | cons d u =>
      obtain ⟨rfl, rest⟩ := List.cons.inj whole
      exact more u v rest

theorem closes_nil_iff : Closes s [] ↔ s.depth = 0 := by
  refine and_iff_left fun u v whole filled => ?_
  exact absurd (List.append_eq_nil_iff.1 whole.symm).2 filled

theorem closes_cons_iff : Closes s (c :: t) ↔ 0 < s.depth ∧ Closes (s.next c) t := by
  unfold Closes
  rw [forall_append_cons]
  have front : ([] : Text) ≠ c :: t := nofun
  constructor
  · exact fun ⟨closed, first, more⟩ => ⟨first front.symm, closed, more⟩
  · exact fun ⟨first, closed, more⟩ => ⟨closed, fun _ => first, more⟩

theorem stays_nil_iff : Stays s [] ↔ 0 < s.depth := by
  constructor
  · exact fun h => h [] [] rfl
  · rintro h u v whole
    rwa [(List.append_eq_nil_iff.1 whole.symm).1]

theorem stays_cons_iff : Stays s (c :: t) ↔ 0 < s.depth ∧ Stays (s.next c) t :=
  forall_append_cons

/-- Where the depth is zero already there is nothing left to close. -/
theorem eq_nil_of_closes (h : Closes s t) (zero : s.depth = 0) : t = [] := by
  cases t with
  | nil => rfl
  | cons c t =>
    have := (closes_cons_iff.1 h).1
    omega

theorem next_quoted (d : Int) (q c : Char) :
    next ⟨d, some q⟩ c = ⟨d, if c = q then none else some q⟩ := by
  unfold next
  dsimp only
  split <;> rfl

theorem next_close (inside : 1 ≤ depth) :
    next ⟨depth, none⟩ '}' = ⟨(depth - 1 : Nat), none⟩ := by
  have less : ((depth - 1 : Nat) : Int) = depth - 1 := by omega
  rw [less]
  rfl

theorem next_other (hc : c ≠ '}') :
    next ⟨depth, none⟩ c =
      ⟨(if c = '{' then depth + 1 else depth : Nat), if isQuote c then some c else none⟩ := by
  unfold next
  dsimp only
  by_cases opens : c = '{'
  · subst opens
    rfl
  · rw [if_neg opens, if_neg hc, if_neg opens]
    split <;> rfl

end Nesting

open Nesting

/-- What a search for a closing brace tells: what it passed closes, or nothing does. -/
def Tells (s : Nesting) (t : Text) : Option (Text × Text) → Prop
  | some (e, _) => s.Closes e
  | none => s.Stays t

theorem tells_cons {found : Option (Text × Text)} (up : 0 < s.depth) (h : Tells (s.next c) t found) :
    Tells s (c :: t) (found.map fun (e, rest) => (c :: e, rest)) := by
  cases found with
  | none => exact stays_cons_iff.2 ⟨up, h⟩
  | some x => exact closes_cons_iff.2 ⟨up, h⟩

theorem tells_closing (inside : 1 ≤ depth) (quoted : Option Char) (t : Text) :
    Tells ⟨depth, quoted⟩ t (closing depth quoted t) := by
  fun_induction closing depth quoted t with
  | case1 => exact stays_nil_iff.2 (Int.natCast_pos.2 inside)
  | case2 depth q c t ih =>
    apply tells_cons (Int.natCast_pos.2 inside)
    rw [next_quoted]
    exact ih inside
  | case3 depth t low =>
    refine closes_cons_iff.2 ⟨Int.natCast_pos.2 inside, ?_⟩
    rw [next_close inside, closes_nil_iff]
    dsimp only
    omega
  | case4 depth t high ih =>
    apply tells_cons (Int.natCast_pos.2 inside)
    rw [next_close inside]
    exact ih (by omega)
  | case5 depth c t other deeper =>
    rename_i ih
    have least : 1 ≤ deeper := by dsimp only [deeper]; split <;> omega
    apply tells_cons (Int.natCast_pos.2 inside)
    rw [next_other other]
    exact ih least

/-- What is read up to the closing brace brings the depth to zero. -/
theorem closes_of_closing (inside : 1 ≤ depth) (h : closing depth quoted t = some (e, rest)) :
    Closes ⟨depth, quoted⟩ e := by
  have told := tells_closing inside quoted t
  rwa [h] at told

/-- Where no closing brace is found, the depth never comes to zero. -/
theorem stays_of_closing (inside : 1 ≤ depth) (h : closing depth quoted t = none) :
    Stays ⟨depth, quoted⟩ t := by
  have told := tells_closing inside quoted t
  rwa [h] at told

/-- A text cannot be closed at two places. -/
theorem Nesting.Closes.unique {e' rest' : Text} (h : Closes s e) (h' : Closes s e')
    (same : e ++ rest = e' ++ rest') : e = e' ∧ rest = rest' := by
  induction e generalizing s e' with
  | nil =>
    obtain rfl := eq_nil_of_closes h' (closes_nil_iff.1 h)
    exact ⟨rfl, same⟩
  | cons c e ih =>
    cases e' with
    | nil => exact absurd (eq_nil_of_closes h (closes_nil_iff.1 h')) (List.cons_ne_nil c e)
    | cons d e' =>
      obtain ⟨rfl, more⟩ := List.cons.inj same
      obtain ⟨rfl, rfl⟩ := ih (closes_cons_iff.1 h).2 (closes_cons_iff.1 h').2 more
      exact ⟨rfl, rfl⟩

theorem closing_eq_some_iff (inside : 1 ≤ depth) :
    closing depth quoted t = some (e, rest) ↔ t = e ++ rest ∧ Closes ⟨depth, quoted⟩ e := by
  constructor
  · exact fun h => ⟨(append_of_closing h).1, closes_of_closing inside h⟩
  · rintro ⟨rfl, closes⟩
    cases h : closing depth quoted (e ++ rest) with
    | none =>
      have up := stays_of_closing inside h e rest rfl
      exact absurd closes.1 (Int.ne_of_gt up)
    | some x =>
      obtain ⟨e', rest'⟩ := x
      obtain ⟨rfl, rfl⟩ := closes.unique (closes_of_closing inside h) (append_of_closing h).1
      rfl

theorem closing_eq_none_iff (inside : 1 ≤ depth) :
    closing depth quoted t = none ↔ Stays ⟨depth, quoted⟩ t := by
  constructor
  · exact stays_of_closing inside
  · intro stays
    cases h : closing depth quoted t with
    | none => rfl
    | some x =>
      have up := stays x.1 x.2 (append_of_closing h).1
      exact absurd (closes_of_closing inside h).1 (Int.ne_of_gt up)

/-! ## Expressions -/

theorem expression?_open (t : Text) :
    expression? ('{' :: t) = (closing 1 none t).map fun x => ('{' :: x.1, x.2) := rfl

/-- Behind its first brace, an expression is what brings the depth back from one to zero. -/
theorem isExpression_cons_iff (hc : c ≠ '{') (last : ('{' :: c :: t).getLast? = some '}') :
    IsExpression ('{' :: c :: t) ↔ Closes ⟨(1 : Nat), none⟩ (c :: t) := by
  constructor
  · exact fun h => ⟨h.closed, fun u v whole filled =>
      h.inside ('{' :: u) v (congrArg ('{' :: ·) whole) (List.cons_ne_nil _ _) filled⟩
  · intro h
    refine ⟨⟨c, t, rfl, hc⟩, last, h.1, fun u v whole front filled => ?_⟩
    obtain ⟨d, u, rfl⟩ := List.exists_cons_of_ne_nil front
    obtain ⟨rfl, more⟩ := List.cons.inj whole
    exact h.2 u v more filled

theorem braced_iff : Braced e ↔ IsExpression e := by
  constructor
  · intro h
    obtain ⟨c, t, rfl, hc⟩ := h.first
    have whole := h.closed []
    rw [List.append_nil, expression?_open] at whole
    obtain ⟨⟨e, r⟩, found, heq⟩ := Option.map_eq_some_iff.1 whole
    cases heq
    exact (isExpression_cons_iff hc h.last).2 (closes_of_closing (Nat.le_refl 1) found)
  · intro h
    obtain ⟨c, t, rfl, hc⟩ := h.single
    refine ⟨⟨c, t, rfl, hc⟩, h.last, fun rest => ?_⟩
    have closes := (isExpression_cons_iff hc h.last).1 h
    have found : closing 1 none (c :: t ++ rest) = some (c :: t, rest) :=
      (closing_eq_some_iff (Nat.le_refl 1)).2 ⟨rfl, closes⟩
    rw [List.cons_append, expression?_open, found]
    rfl

/-- Nothing closes a brace exactly if the depth stays above zero from it on. -/
theorem unclosed_iff : unclosed t = true ↔ NeverClosed t := by
  rw [unclosed, Option.isNone_iff_eq_none, closing_eq_none_iff (Nat.le_refl 1), NeverClosed,
    forall_append_cons]
  exact ⟨fun h => ⟨absurd rfl, fun u v whole _ => h u v whole⟩,
    fun h u v whole => h.2 u v whole (List.cons_ne_nil _ _)⟩

/-! ## The texts between them -/

theorem paired_pair_iff : Paired ('{' :: '{' :: t) ↔ Paired t := by
  refine ⟨fun h => ?_, .pair⟩
  cases h with
  | pair h => exact h
  | other hc => exact absurd rfl hc

theorem paired_cons_iff (hc : c ≠ '{') : Paired (c :: t) ↔ Paired t := by
  refine ⟨fun h => ?_, .other hc⟩
  cases h with
  | pair => exact absurd rfl hc
  | other _ h => exact h

theorem not_paired_open (h : t.head? ≠ some '{') : ¬ Paired ('{' :: t) := by
  rintro (_ | _ | hc)
  · exact h rfl
  · exact hc rfl

theorem pairedTo_pair_iff {P : Text → Prop} : PairedTo P ('{' :: '{' :: t) ↔ PairedTo P t := by
  constructor
  · rintro ⟨u, v, whole, hu, hv, hr⟩
    match u with
    | [] => exact absurd (congrArg List.head? (List.cons.inj whole).2.symm) hv
    | [d] =>
      obtain ⟨rfl, -⟩ := List.cons.inj whole
      exact absurd hu (not_paired_open nofun)
    | d :: d' :: u =>
      obtain ⟨rfl, behind⟩ := List.cons.inj whole
      obtain ⟨second, more⟩ := List.cons.inj behind
      subst second
      exact ⟨u, v, more, paired_pair_iff.1 hu, hv, hr⟩
  · rintro ⟨u, v, rfl, hu, hv, hr⟩
    exact ⟨'{' :: '{' :: u, v, rfl, hu.pair, hv, hr⟩

theorem pairedTo_cons_iff {P : Text → Prop} (hc : c ≠ '{') : PairedTo P (c :: t) ↔ PairedTo P t := by
  constructor
  · rintro ⟨u, v, whole, hu, hv, hr⟩
    cases u with
    | nil => exact absurd (List.cons.inj whole).1 hc
    | cons d u =>
      obtain ⟨rfl, more⟩ := List.cons.inj whole
      exact ⟨u, v, more, (paired_cons_iff hc).1 hu, hv, hr⟩
  · rintro ⟨u, v, rfl, hu, hv, hr⟩
    exact ⟨c :: u, v, rfl, hu.other hc, hv, hr⟩

theorem pairedTo_open_iff {P : Text → Prop} (h : t.head? ≠ some '{') : PairedTo P ('{' :: t) ↔ P t := by
  constructor
  · rintro ⟨u, v, whole, hu, hv, hr⟩
    cases u with
    | nil => exact (List.cons.inj whole).2 ▸ hr
    | cons d u =>
      obtain ⟨rfl, more⟩ := List.cons.inj whole
      refine absurd hu (not_paired_open fun first => h ?_)
      rw [show t = u ++ '{' :: v from more, List.head?_append, first, Option.some_or]
  · exact fun hr => ⟨[], t, rfl, .nil, h, hr⟩

/-- The two ways in which a text can be clear. -/
theorem clear_eq_true_iff {rest : Text → Bool} :
    clear rest t = true ↔ Paired t ∨ PairedTo (rest · = true) t := by
  fun_induction clear rest t with
  | case1 => exact iff_of_true rfl (.inl .nil)
  | case2 t ih => rw [ih, paired_pair_iff, pairedTo_pair_iff]
  | case3 t ih =>
    have other : '}' ≠ '{' := by decide
    rw [ih, paired_cons_iff other, paired_cons_iff other, pairedTo_cons_iff other,
      pairedTo_cons_iff other]
  | case4 t single =>
    have first : t.head? ≠ some '{' := fun h => by
      obtain ⟨u, rfl⟩ := List.head?_eq_some_iff.1 h
      exact single u rfl
    rw [pairedTo_open_iff first]
    exact (or_iff_right (not_paired_open first)).symm
  | case5 c t _ _ other ih =>
    have other : c ≠ '{' := other
    rw [ih, paired_cons_iff other, pairedTo_cons_iff other]

theorem clear_paired_iff : clear (fun _ => false) t = true ↔ Paired t := by
  rw [clear_eq_true_iff]
  refine or_iff_left ?_
  rintro ⟨_, _, _, _, _, hr⟩
  cases hr

theorem clear_iff_parted : Clear t parts ↔ Parted t parts := by
  induction parts generalizing t with
  | nil =>
    rw [Clear, Parted, clear_eq_true_iff]
    simp only [unclosed_iff]
  | cons x parts ih =>
    obtain ⟨e, u⟩ := x
    rw [Clear, Parted, clear_paired_iff, braced_iff, ih]

/-! ## The masked text -/

/-- No identifier that is put into a text stands in it already. -/
theorem not_infix_number (n : Nat) (es : List Text) :
    ∀ p ∈ number raw n es, ¬ p.token <:+: raw := by
  induction es generalizing n with
  | nil => nofun
  | cons e es ih =>
    refine List.forall_mem_cons.2 ⟨fun occurs => ?_, ih _⟩
    have absent := (fresh_spec raw n).2.1
    rw [Text.occursIn_iff.2 occurs] at absent
    cases absent

/-- A text cut at its expressions, and its masked form with an identifier in the place of each. -/
structure Weaves (raw : Text) (m : Masked) (lead : Text) (ps : List (Placeholder × Text)) : Prop where
  source : raw = write (·.expression) lead ps
  text : m.text = write (·.token) lead ps
  placeholders : m.placeholders = ps.map (·.1)
  distinct : (m.placeholders.map (·.token)).Nodup
  absent : ∀ p ∈ m.placeholders, ¬ p.token <:+: raw
  parted : Parted lead (ps.map fun x => (x.1.expression, x.2))

/-- Masking puts distinct identifiers, none of which the text holds, in the place of the expressions, and
leaves all else. The expressions are those that braces tell, and there is one way only to cut the text
into them. -/
theorem mask_weaves (h : mask raw = some m) :
    ∃ lead ps, Weaves raw m lead ps ∧
      ∀ lead' parts, raw = lead' ++ parts.flatMap (fun (e, t) => e ++ t) → Parted lead' parts →
        lead' = lead ∧ parts = ps.map fun x => (x.1.expression, x.2) := by
  obtain ⟨text, placeholders, -⟩ := mask_spec h
  refine ⟨(split raw).1, pieces raw, ?_, fun lead' parts whole parted => ?_⟩
  · refine ⟨(write_expression raw).symm, text, placeholders, ?_, ?_, ?_⟩
    · rw [placeholders, List.map_map]
      exact nodup_pieces raw
    · rw [placeholders, placeholders_of_pieces]
      exact not_infix_number 0 _
    · rw [parts_of_pieces]
      exact clear_iff_parted.1 (clear_split raw)
  · have cut := split_of_clear (clear_iff_parted.2 parted)
    rw [← whole] at cut
    rw [parts_of_pieces, cut]
    exact ⟨rfl, rfl⟩

/-- A doubled brace before an expression, a quoted brace in it, another expression in the next one, and a
brace at the end that nothing closes. -/
def nested : Text := "\x7b\x7b\x7ba['\x7d']\x7d \x7bb:\x7bw\x7d\x7d\x7d \x7bt".toList

theorem mask_weaves_nested :
    ∃ m lead ps, mask nested = some m ∧ Weaves nested m lead ps ∧
      ps.map (fun x => (x.1.expression, x.2)) =
        [("\x7ba['\x7d']\x7d".toList, " ".toList),
          ("\x7bb:\x7bw\x7d\x7d".toList, "\x7d \x7bt".toList)] := by
  have masked : (mask nested).isSome = true := by with_unfolding_all decide
  obtain ⟨m, h⟩ := Option.isSome_iff_exists.1 masked
  obtain ⟨lead, ps, weaves, unique⟩ := mask_weaves h
  refine ⟨m, lead, ps, h, weaves, ?_⟩
  obtain ⟨-, parts⟩ := unique _ _ (split_spec nested).1 (clear_iff_parted.1 (clear_split nested))
  rw [← parts]
  with_unfolding_all decide

end
end HostSql.Mask
