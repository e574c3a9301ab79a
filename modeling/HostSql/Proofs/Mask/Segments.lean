import HostSql.Proofs.Mask.Arrangement
import HostSql.Proofs.Mask.Unmask
import HostSql.Proofs.Sql.Edges
import HostSql.Proofs.Text.Holds

/-! Unmasking a part of a text. Where neither end of the part lies inside an identifier, the part can be
unmasked on its own, with the placeholders whose identifiers stand in it, and what comes out stands
in the unmasked text at the place of the part. -/
namespace HostSql

namespace Mask
open Sql.Lexer (inEveryWord Bounded)

/-- No identifier begins in the first text and ends in the second. -/
def Seam (u v : Text) : Prop :=
  ∀ a x y b n, u = a ++ x → v = y ++ b → token n = x ++ y → x = [] ∨ y = []

section
variable {u v a w : Text} {c : Char} {n : Nat}

/-- Identifiers are words in every dialect. -/
theorem inEveryWord_of_mem_token (h : c ∈ token n) : inEveryWord c = true := by
  have around : (marker ++ ['_', '_']).all inEveryWord = true := by decide
  have around := List.all_eq_true.1 around
  rw [token, List.mem_append, List.mem_append] at h
  rcases h with (h | h) | h
  · exact around c (List.mem_append_left _ h)
  · have digit := Nat.isDigit_of_mem_toDigits (by decide) (by decide) h
    simp [inEveryWord, Char.isAlphanum, digit]
  · exact around c (List.mem_append_right _ h)

theorem Seam.left (h : Seam (a ++ u) v) : Seam u v := by
  intro a' x y b n hu hv whole
  exact h (a ++ a') x y b n (by rw [hu, List.append_assoc]) hv whole

theorem seam_front {t : Text} (h : Bounded c t n) (u : Text) : Seam u (c :: t) := by
  intro a x y b k hu hv whole
  refine or_iff_not_imp_right.2 fun filled => ?_
  have word : ∀ e ∈ y, inEveryWord e = true := fun e he =>
    inEveryWord_of_mem_token (n := k) (whole ▸ List.mem_append_right x he)
  obtain ⟨e, y, rfl⟩ := List.exists_cons_of_ne_nil filled
  obtain ⟨rfl, rest⟩ := List.cons.inj hv
  obtain ⟨other, e, next, sign⟩ := h.front (word c List.mem_cons_self)
  -- An identifier ends with an underscore, so more of it follows, and that is no sign.
  cases y with
  | nil =>
    have last := (searched_token k).last (token_ne_nil k)
    rw [whole, List.getLast?_concat] at last
    exact absurd (Option.some.inj last) other
  | cons e' y =>
    have same : e' = e := by
      rw [rest] at next
      cases n with
      | zero => simp at next
      | succ n => simpa using next
    rw [← same, word e' (by simp)] at sign
    cases sign

theorem seam_back {t : Text} (h : Bounded c t n) : Seam (c :: t.take n) (t.drop n) := by
  intro a x y b k hu hv whole
  refine or_iff_not_imp_left.2 fun filled => ?_
  obtain ⟨x, e, rfl⟩ := List.eq_nil_or_concat x |>.resolve_left filled
  by_contra more
  obtain ⟨f, y, rfl⟩ := List.exists_cons_of_ne_nil more
  have word (d : Char) (hd : d ∈ x.concat e ++ f :: y) : inEveryWord d = true :=
    inEveryWord_of_mem_token (n := k) (whole ▸ hd)
  have stop := h.back e (by rw [hu]; simp) (word e (by simp))
  rw [hv] at stop
  have := word f (by simp)
  simp [this] at stop

end

/-- Texts and identifiers cut in two between identifiers. -/
inductive Cut : Text → List (Placeholder × Text) → Text → List (Placeholder × Text) → Text →
    List (Placeholder × Text) → Prop
  | here (u v : Text) (ps : List (Placeholder × Text)) : Cut (u ++ v) ps u [] v ps
  | next (lead : Text) (p : Placeholder) {t u v : Text} {ps us vs : List (Placeholder × Text)}
      (h : Cut t ps u us v vs) : Cut lead ((p, t) :: ps) lead ((p, u) :: us) v vs

section
variable {lead t u v w : Text} {ps us vs before after : List (Placeholder × Text)} {p : Placeholder}
  {put : Placeholder → Text}

namespace Cut

theorem write (h : Cut lead ps u us v vs) (put : Placeholder → Text) :
    write put lead ps = Mask.write put u us ++ Mask.write put v vs := by
  induction h with
  | here u v ps => simp [Mask.write]
  | next lead p _ ih =>
    rw [write_cons, write_cons, ih]
    simp

theorem placeholders (h : Cut lead ps u us v vs) : ps.map (·.1) = us.map (·.1) ++ vs.map (·.1) := by
  induction h with
  | here => rfl
  | next _ p _ ih => rw [List.map_cons, List.map_cons, ih, List.cons_append]

/-- Each part has placeholders of the whole. -/
theorem forall_mem (h : Cut lead ps u us v vs) {P : Placeholder → Prop} (all : ∀ x ∈ ps, P x.1) :
    (∀ x ∈ us, P x.1) ∧ ∀ x ∈ vs, P x.1 := by
  induction h with
  | here => exact ⟨nofun, all⟩
  | next lead p _ ih =>
    obtain ⟨first, others⟩ := List.forall_mem_cons.1 all
    exact ⟨List.forall_mem_cons.2 ⟨first, (ih others).1⟩, (ih others).2⟩

/-- What stands in the first part. -/
theorem first (h : Cut lead ps u (before ++ (p, t) :: after) v vs) :
    lead = u ∧ ∃ t' after', ps = before ++ (p, t') :: after' ∧ Cut t' after' t after v vs := by
  induction before generalizing lead ps u with
  | nil =>
    cases h with
    | next lead p h => exact ⟨rfl, _, _, rfl, h⟩
  | cons x before ih =>
    cases h with
    | next lead q h =>
      obtain ⟨rfl, t', after', rfl, more⟩ := ih h
      exact ⟨rfl, t', after', rfl, more⟩

/-- What stands in the second part. -/
theorem second (h : Cut lead ps u us v (before ++ (p, t) :: after)) :
    ∃ before', ps = before' ++ (p, t) :: after ∧
      ∀ put, Mask.write put lead before' = Mask.write put u us ++ Mask.write put v before := by
  generalize hv : before ++ (p, t) :: after = vs at h
  induction h with
  | here u v ps =>
    subst hv
    exact ⟨before, rfl, fun put => by simp [Mask.write]⟩
  | next lead q h ih =>
    obtain ⟨before', rfl, same⟩ := ih hv
    refine ⟨(q, _) :: before', rfl, fun put => ?_⟩
    rw [write_cons, write_cons, same]
    simp

end Cut

/-- A text that is cut outside its identifiers is cut between them. -/
theorem exists_cut (named : ∀ x ∈ ps, ∃ n, x.1.token = token n) (seam : Seam u v)
    (h : write (·.token) lead ps = u ++ v) :
    ∃ u₁ us v₁ vs, Cut lead ps u₁ us v₁ vs ∧ u = write (·.token) u₁ us ∧ v = write (·.token) v₁ vs := by
  induction ps generalizing lead u with
  | nil =>
    rw [write_nil] at h
    exact ⟨u, [], v, [], h ▸ .here u v [], (write_nil _ _).symm, (write_nil _ _).symm⟩
  | cons x ps ih =>
    obtain ⟨p, t⟩ := x
    obtain ⟨⟨n, hn⟩, others⟩ := List.forall_mem_cons.1 named
    rw [write_cons] at h
    by_cases inside : u.length ≤ lead.length
    · obtain ⟨w, rfl, rest⟩ := Text.exists_append_of_length_le h.symm inside
      refine ⟨u, [], w, (p, t) :: ps, .here u w _, (write_nil _ _).symm, ?_⟩
      rw [write_cons, rest]
    · obtain ⟨y, rfl, rest⟩ := Text.exists_append_of_length_le h (by omega)
      by_cases cut : y.length < p.token.length
      · obtain ⟨z, whole, more⟩ := Text.exists_append_of_length_le rest.symm (Nat.le_of_lt cut)
        have none := seam lead y z (write (·.token) t ps) n rfl more (hn ▸ whole)
        rcases none with rfl | rfl
        · simp at inside
        · rw [List.append_nil] at whole
          rw [whole] at cut
          exact absurd cut (Nat.lt_irrefl _)
      · obtain ⟨z, rfl, more⟩ := Text.exists_append_of_length_le rest (Nat.le_of_not_lt cut)
        have behind : Seam z v := by
          apply Seam.left (a := lead ++ p.token)
          rwa [List.append_assoc]
        obtain ⟨u₁, us, v₁, vs, parts, rfl, rfl⟩ := ih others behind more
        exact ⟨lead, (p, u₁) :: us, v₁, vs, .next lead p parts, (write_cons ..).symm, rfl⟩

end

/-- Placeholders as a mask has them. -/
structure Proper (qs : List Placeholder) : Prop where
  named : ∀ q ∈ qs, ∃ n, q.token = token n
  distinct : (qs.map (·.token)).Nodup
  braced : ∀ q ∈ qs, q.expression.head? = some '{'
  ended : ∀ q ∈ qs, Text.Ended q.expression

theorem Proper.filled {qs : List Placeholder} (h : Proper qs) : ∀ q ∈ qs, q.token ≠ [] := by
  intro q hq
  obtain ⟨n, hn⟩ := h.named q hq
  exact hn ▸ token_ne_nil n

theorem proper_nil : Proper [] := ⟨nofun, .nil, nofun, nofun⟩

theorem proper_of_mask {raw : Text} {m : Masked} (h : mask raw = some m) : Proper m.placeholders := by
  rw [(mask_spec h).2.1]
  refine ⟨fun q hq => ?_, ?_, fun q hq => ?_, fun q hq => ?_⟩
  · obtain ⟨x, hx, rfl⟩ := List.mem_map.1 hq
    exact named_pieces raw x hx
  · rw [List.map_map]
    exact nodup_pieces raw
  · obtain ⟨x, hx, rfl⟩ := List.mem_map.1 hq
    exact head_of_expression hx
  · obtain ⟨x, hx, rfl⟩ := List.mem_map.1 hq
    exact ended_pieces raw x hx

section
variable {qs : List Placeholder} {lead t u k v sql : Text} {ps us ks vs : List (Placeholder × Text)}
  {p : Placeholder}

theorem exists_write_of_mem (hp : p ∈ ps.map (·.1)) (lead : Text) :
    ∃ a b, write (·.token) lead ps = a ++ (p.token ++ b) := by
  obtain ⟨x, hx, rfl⟩ := List.mem_map.1 hp
  obtain ⟨before, after, rfl⟩ := List.append_of_mem hx
  exact ⟨_, _, write_append _ _ _ _ _ _⟩

/-- What is found once, before or behind a part of a text, does not occur in that part. -/
theorem not_occursIn_of_outside {x a b u k v : Text}
    (only : (Text.splitOnly? x (u ++ (k ++ v))).isSome = true) (filled : x ≠ [])
    (place : u ++ (k ++ v) = a ++ (x ++ b))
    (outside : a.length + x.length ≤ u.length ∨ u.length + k.length ≤ a.length) :
    ¬Text.occursIn x k = true := by
  intro occurs
  obtain ⟨⟨y, z⟩, found⟩ := Option.isSome_iff_exists.1 occurs
  have here := (Text.splitFirst?_spec found).1
  have also : u ++ (k ++ v) = (u ++ y) ++ (x ++ (z ++ v)) := by
    rw [here]
    simp
  have one := Text.lt_of_splitOnly? only filled also place
  have other := Text.lt_of_splitOnly? only filled place also
  have width := congrArg List.length here
  simp only [List.length_append] at one other width
  omega

/-- Of all identifiers in a text, those that stand in a part of it occur there and no others do. -/
theorem filter_occursIn {rest : List (Placeholder × Text)} (cut : Cut lead ps u us t rest)
    (cut' : Cut t rest k ks v vs) (filled : ∀ p ∈ ps.map (·.1), p.token ≠ [])
    (only : ∀ p ∈ ps.map (·.1), (Text.splitOnly? p.token (write (·.token) lead ps)).isSome = true) :
    (ps.map (·.1)).filter (·.token.occursIn (write (·.token) k ks)) = ks.map (·.1) := by
  have whole : write (·.token) lead ps =
      write (·.token) u us ++ (write (·.token) k ks ++ write (·.token) v vs) := by
    rw [cut.write, cut'.write]
  have among : ps.map (·.1) = us.map (·.1) ++ (ks.map (·.1) ++ vs.map (·.1)) := by
    rw [cut.placeholders, cut'.placeholders]
  have inside : ∀ p ∈ ks.map (·.1), Text.occursIn p.token (write (·.token) k ks) = true := by
    intro p hp
    obtain ⟨a, b, place⟩ := exists_write_of_mem hp k
    exact Text.splitFirst?_isSome place
  rw [whole] at only
  rw [among] at only filled ⊢
  rw [List.filter_append, List.filter_append, List.filter_eq_self.2 inside,
    List.filter_eq_nil_iff.2, List.filter_eq_nil_iff.2, List.nil_append, List.append_nil]
  · intro p hp
    have hp' : p ∈ us.map (·.1) ++ (ks.map (·.1) ++ vs.map (·.1)) := by simp [hp]
    obtain ⟨a, b, place⟩ := exists_write_of_mem hp v
    refine not_occursIn_of_outside (a := write (·.token) u us ++ (write (·.token) k ks ++ a)) (b := b)
      (only p hp') (filled p hp') ?_ (.inr ?_)
    · rw [place]
      simp
    · simp only [List.length_append]
      omega
  · intro p hp
    have hp' : p ∈ us.map (·.1) ++ (ks.map (·.1) ++ vs.map (·.1)) := by simp [hp]
    obtain ⟨a, b, place⟩ := exists_write_of_mem hp u
    refine not_occursIn_of_outside (a := a)
      (b := b ++ (write (·.token) k ks ++ write (·.token) v vs)) (only p hp') (filled p hp') ?_ (.inl ?_)
    · rw [place]
      simp
    · rw [place]
      simp only [List.length_append]
      omega

/-- An identifier that stands in a part of a text is found there as it is in the text. -/
theorem splitFirst?_cut {rest before after : List (Placeholder × Text)} {s : Text}
    (cut : Cut lead ps u us t rest) (cut' : Cut t rest k (before ++ (p, s) :: after) v vs)
    (own : InPlace lead ps) :
    Text.splitFirst? p.token (write (·.token) lead ps) =
      some (write (·.token) u us ++ write (·.token) k before, write (·.token) s after ++ write (·.token) v vs) := by
  obtain ⟨rfl, s', after', rfl, more⟩ := cut'.first
  obtain ⟨before', rfl, same⟩ := cut.second
  rw [own before' p s' after' rfl, same, more.write]

/-- A part of a text is unmasked with the placeholders whose identifiers stand in it. -/
theorem unmask_cut {rest : List (Placeholder × Text)} (cut : Cut lead ps u us t rest)
    (cut' : Cut t rest k ks v vs) (proper : Proper qs) (perm : (ps.map (·.1)).Perm qs)
    (own : InPlace lead ps)
    (only : ∀ p ∈ qs, (Text.splitOnly? p.token (write (·.token) lead ps)).isSome = true) :
    unmask (write (·.token) k ks) (qs.filter (·.token.occursIn (write (·.token) k ks))) =
      some (write (·.expression) k ks) := by
  have whole : write (·.token) lead ps =
      write (·.token) u us ++ (write (·.token) k ks ++ write (·.token) v vs) := by
    rw [cut.write, cut'.write]
  have only' : ∀ p ∈ ps.map (·.1), (Text.splitOnly? p.token (write (·.token) lead ps)).isSome = true :=
    fun p hp => only p (perm.subset hp)
  have among : ∀ p ∈ ks.map (·.1), p ∈ qs := fun p hp => by
    apply perm.subset
    rw [cut.placeholders, cut'.placeholders]
    simp [hp]
  have found {before after : List (Placeholder × Text)} {p : Placeholder} {s : Text}
      (hs : ks = before ++ (p, s) :: after) :
      Text.splitFirst? p.token (write (·.token) k ks) =
          some (write (·.token) k before, write (·.token) s after) ∧
        (Text.splitOnly? p.token (write (·.token) k ks)).isSome = true := by
    have place : write (·.token) k ks = write (·.token) k before ++ (p.token ++ write (·.token) s after) := by
      rw [hs, write_append]
    have first := splitFirst?_cut cut (hs ▸ cut') own
    have alone := only p (among p (by simp [hs]))
    rw [whole] at first alone
    exact ⟨Text.splitFirst?_within first place, Text.splitOnly?_within alone first place⟩
  have alone : ∀ p ∈ ks.map (·.1), (Text.splitOnly? p.token (write (·.token) k ks)).isSome = true := by
    intro p hp
    obtain ⟨x, hx, rfl⟩ := List.mem_map.1 hp
    obtain ⟨before, after, hs⟩ := List.append_of_mem hx
    exact (found hs).2
  have kept : (qs.filter (·.token.occursIn (write (·.token) k ks))).Perm (ks.map (·.1)) := by
    rw [← filter_occursIn cut cut' (fun p hp => proper.filled p (perm.subset hp)) only']
    exact (perm.filter _).symm
  rw [unmask_perm kept alone fun p hp q hq same => ?_]
  · refine unmask_inPlace (fun x hx => ?_) (fun x hx => ?_) alone fun before p s after hs => (found hs).1
    · exact proper.named _ (among _ (List.mem_map_of_mem hx))
    · exact proper.braced _ (among _ (List.mem_map_of_mem hx))
  · have equal := eq_of_firstAt (proper.named p (among p hp)) (proper.named q (among q hq))
      (alone p hp) (alone q hq) same
    exact List.inj_on_of_nodup_map proper.distinct (among p hp) (among q hq) equal

theorem count_write_eq (named : ∀ x ∈ ps, ∃ n, x.1.token = token n)
    (flat : ∀ x ∈ ps, '\n' ∉ x.1.expression) (lead : Text) :
    (write (·.expression) lead ps).count '\n' = (write (·.token) lead ps).count '\n' := by
  rw [count_write fun x hx => newline_token (named x hx)]
  have none : (ps.map (·.1.expression.count '\n')).sum = 0 :=
    List.sum_eq_zero_iff_forall_eq_nat.2 fun k hk => by
      obtain ⟨x, hx, rfl⟩ := List.mem_map.1 hk
      exact List.count_eq_zero_of_not_mem (flat x hx)
  omega

theorem ended_write (filled : ∀ x ∈ ps, x.1.token ≠ []) (ended : ∀ x ∈ ps, Text.Ended x.1.expression)
    (h : Text.Ended (write (·.token) lead ps)) : Text.Ended (write (·.expression) lead ps) := by
  induction ps generalizing lead with
  | nil => simpa using h
  | cons x ps ih =>
    obtain ⟨p, t⟩ := x
    obtain ⟨here, others⟩ := List.forall_mem_cons.1 ended
    obtain ⟨_, filled'⟩ := List.forall_mem_cons.1 filled
    rw [write_cons] at h ⊢
    apply Text.Ended.prepend
    cases whole : write (·.token) t ps with
    | nil =>
      have none : t = [] ∧ ps = [] := by
        cases ps with
        | nil => exact ⟨by simpa using whole, rfl⟩
        | cons y ps =>
          rw [write_cons, List.append_eq_nil_iff, List.append_eq_nil_iff] at whole
          exact absurd whole.2.1 (filled' y List.mem_cons_self)
      rw [none.1, none.2, write_nil, List.append_nil]
      exact here
    | cons c z =>
      apply Text.Ended.prepend
      apply ih filled' others
      obtain ⟨e, last, solid⟩ := h
      refine ⟨e, ?_, solid⟩
      rw [← last, ← List.append_assoc, List.getLast?_append_of_ne_nil]
      rw [whole]
      exact List.cons_ne_nil c z

/-- Expressions begin with a brace and end with one, so putting them back leaves no blanks at the ends of a
text. -/
theorem trimmed_write (filled : ∀ x ∈ ps, x.1.token ≠ []) (ended : ∀ x ∈ ps, Text.Ended x.1.expression)
    (braced : ∀ x ∈ ps, x.1.expression.head? = some '{') (h : Text.Trimmed (write (·.token) lead ps)) :
    Text.Trimmed (write (·.expression) lead ps) where
  starts := by
    obtain ⟨c, head, solid⟩ := h.starts
    cases lead with
    | cons e lead => exact ⟨c, head, solid⟩
    | nil =>
      cases ps with
      | nil => exact ⟨c, head, solid⟩
      | cons x ps =>
        refine ⟨'{', ?_, by decide⟩
        rw [write_cons, List.nil_append, List.head?_append, braced x List.mem_cons_self]
        rfl
  ends := ended_write filled ended h.ends

/-- A part of a text that neither begins nor ends inside an identifier stands in the unmasked text as it is
unmasked on its own. If no expression that is put back has a line break, all line breaks are those
of the text. -/
theorem unmask_part (proper : Proper qs) (back : unmask (u ++ (k ++ v)) qs = some sql)
    (count : sql.count '\n' = (u ++ (k ++ v)).count '\n') (front : Seam u (k ++ v)) (behind : Seam k v)
    (trimmed : Text.Trimmed k) :
    ∃ x y z, sql = x ++ (y ++ z) ∧ unmask k (qs.filter (·.token.occursIn k)) = some y ∧ Text.Trimmed y ∧
      x.count '\n' = u.count '\n' ∧ y.count '\n' = k.count '\n' := by
  have only := only_of_unmask back
  obtain ⟨lead, ps, whole, rfl, perm, own⟩ := exists_write_of_unmask proper.filled back
  rw [whole] at count only
  have among : ∀ x ∈ ps, x.1 ∈ qs := fun x hx => perm.subset (List.mem_map_of_mem hx)
  have named {ps : List (Placeholder × Text)} (among : ∀ x ∈ ps, x.1 ∈ qs) :
      ∀ x ∈ ps, ∃ n, x.1.token = token n := fun x hx => proper.named _ (among x hx)
  have flat := flat_of_count (named among) (Nat.le_of_eq count)
  obtain ⟨lead₁, us, t, rest, cut, rfl, last⟩ := exists_cut (named among) front whole.symm
  obtain ⟨among₁, others⟩ := cut.forall_mem among
  obtain ⟨flat₁, flats⟩ := cut.forall_mem (P := ('\n' ∉ ·.expression)) flat
  obtain ⟨lead₂, ks, lead₃, vs, cut', rfl, rfl⟩ := exists_cut (named others) behind last.symm
  have among₂ := (cut'.forall_mem others).1
  have flat₂ := (cut'.forall_mem (P := ('\n' ∉ ·.expression)) flats).1
  refine ⟨write (·.expression) lead₁ us, write (·.expression) lead₂ ks, write (·.expression) lead₃ vs, ?_,
    unmask_cut cut cut' proper perm own only, ?_, count_write_eq (named among₁) flat₁ lead₁,
    count_write_eq (named among₂) flat₂ lead₂⟩
  · rw [cut.write, cut'.write]
  · refine trimmed_write (fun x hx => ?_) (fun x hx => ?_) (fun x hx => ?_) trimmed
    · exact proper.filled _ (among₂ x hx)
    · exact proper.ended _ (among₂ x hx)
    · exact proper.braced _ (among₂ x hx)

/-- Identifiers have no line breaks, so all those of a text are still there when it is unmasked. -/
theorem newline_of_unmask (proper : Proper qs) (back : unmask t qs = some sql) (h : '\n' ∈ t) : '\n' ∈ sql := by
  obtain ⟨lead, ps, rfl, rfl, perm, -⟩ := exists_write_of_unmask proper.filled back
  have plain : ∀ x ∈ ps, '\n' ∉ x.1.token := fun x hx =>
    newline_token (proper.named x.1 (perm.subset (List.mem_map_of_mem hx)))
  have count : (write (·.expression) lead ps).count '\n' =
      (write (·.token) lead ps).count '\n' + (ps.map (·.1.expression.count '\n')).sum := count_write plain
  have some := List.count_pos_iff.2 h
  apply List.count_pos_iff.1
  omega

end

end Mask
end HostSql
