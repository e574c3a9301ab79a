import HostSql.Proofs.Mask.Reformat
import Mathlib.Data.List.Nodup
import Mathlib.Tactic.IntervalCases

/-! Identifiers in a text that has no part of its own that looks like one. All identifiers share a
stem, and where a digit follows the stem in such a text, an identifier stands: no end of a piece of
text and no other identifier can make one up together with the next. So each identifier is found at
its own place, in whatever order they stand and whatever is between them. -/
namespace HostSql.Mask

/-- What every identifier holds between its first underscores and its digits. -/
def stem : Text := ['E', 'S', 'Q', 'L', '_', 'M', 'A', 'S', 'K', '_']

/-- A text without the stem. -/
def Free (t : Text) : Prop := Text.occursIn stem t = false

section
variable {lead t u v w : Text} {p : Placeholder} {ps : List (Placeholder × Text)} {n : Nat} {d : Char}

theorem free_iff : Free t ↔ ∀ u v, t ≠ u ++ (stem ++ v) := by
  rw [Free, Text.occursIn]
  constructor
  · rintro h u v rfl
    rw [Text.splitFirst?_isSome rfl] at h
    cases h
  · intro h
    cases found : Text.splitFirst? stem t with
    | none => rfl
    | some parts => exact absurd (Text.splitFirst?_spec found).1 (h parts.1 parts.2)

theorem Free.of_append (h : Free (u ++ (t ++ w))) : Free t := by
  rw [free_iff] at h ⊢
  rintro x v rfl
  exact h (u ++ x) (v ++ w) (by simp)

theorem token_stem (n : Nat) :
    ∃ d v, d.isDigit = true ∧ token n = '_' :: '_' :: (stem ++ d :: v) := by
  cases hd : Nat.toDigits 10 n with
  | nil =>
    have := Nat.length_toDigits_pos (b := 10) (n := n)
    rw [hd] at this
    cases this
  | cons d ds =>
    refine ⟨d, ds ++ ['_', '_'], ?_, ?_⟩
    · exact Nat.isDigit_of_mem_toDigits (b := 10) (n := n) (by decide) (by decide)
        (hd ▸ List.mem_cons_self)
    · rw [token, hd]
      rfl

theorem length_stem : stem.length = 10 := rfl

/-- The stem is not inside a text without it, and the underscores that an identifier begins with are
nowhere in the stem or between it and a digit. -/
theorem length_le_of_stem (free : Free lead) (digit : d.isDigit = true)
    (h : lead ++ '_' :: '_' :: w = u ++ (stem ++ d :: v)) : lead.length ≤ u.length := by
  by_contra short
  obtain ⟨z, rfl, hz⟩ := Text.exists_append_of_length_le h.symm (by omega)
  by_cases inside : stem.length ≤ z.length
  · obtain ⟨y, rfl, -⟩ := Text.exists_append_of_length_le hz inside
    exact free_iff.1 free u y rfl
  · obtain ⟨i, hi⟩ : ∃ i, z.length = i + 1 :=
      Nat.exists_eq_add_one_of_ne_zero (by rw [List.length_append] at short; omega)
    have first := congrArg (·[i + 1]?) hz
    have second := congrArg (·[i + 2]?) hz
    simp only [List.getElem?_append_right (show z.length ≤ i + 1 by omega),
      List.getElem?_append_right (show z.length ≤ i + 2 by omega)] at first second
    rw [hi] at first second
    have nine : i < 9 := by
      rw [length_stem] at inside
      omega
    have apart : d ≠ '_' := by
      rintro rfl
      exact absurd digit (by decide)
    interval_cases i <;> simp [stem] at first second
    exact apart second

/-- Where a digit follows the stem, an identifier stands. -/
theorem exists_place_of_stem (named : ∀ x ∈ ps, ∃ n, x.1.token = token n) (free : Free lead)
    (texts : ∀ x ∈ ps, Free x.2) (digit : d.isDigit = true)
    (h : write (·.token) lead ps = u ++ (stem ++ d :: v)) :
    ∃ before p t after, ps = before ++ (p, t) :: after ∧
      u = write (·.token) lead before ++ ['_', '_'] := by
  induction ps generalizing lead u with
  | nil =>
    rw [write_nil] at h
    exact absurd h (free_iff.1 free u (d :: v))
  | cons x ps ih =>
    obtain ⟨p, t⟩ := x
    obtain ⟨⟨k, hk⟩, named'⟩ := List.forall_mem_cons.1 named
    obtain ⟨freeT, texts'⟩ := List.forall_mem_cons.1 texts
    rw [write_cons, hk] at h
    obtain ⟨e, z, -, opening⟩ := token_stem k
    have long := length_token k
    have behind : lead.length ≤ u.length := by
      have whole : lead ++ '_' :: '_' :: (stem ++ e :: z ++ write (·.token) t ps) =
          u ++ (stem ++ d :: v) := by
        rw [← h, opening]
        simp
      exact length_le_of_stem free digit whole
    obtain ⟨y, rfl, hy⟩ := Text.exists_append_of_length_le h behind
    by_cases own : y.length < (token k).length
    · -- Only its third character is an E, so the stem begins there.
      have third : (token k)[y.length]? = some 'E' := by
        have char := congrArg (·[y.length]?) hy
        simp only [List.getElem?_append_left own, List.getElem?_append_right (Nat.le_refl _)] at char
        simpa [stem] using char
      have two := eq_two_of_token_getElem? third
      refine ⟨[], p, t, ps, rfl, ?_⟩
      have front : ['_', '_'] ++ (stem ++ e :: z ++ write (·.token) t ps) = y ++ (stem ++ d :: v) := by
        rw [← hy, opening]
        rfl
      rw [write_nil, (List.append_inj front two.symm).1]
    · obtain ⟨y', rfl, hy'⟩ := Text.exists_append_of_length_le hy (by omega)
      obtain ⟨before, q, s, after, rfl, rfl⟩ := ih named' freeT texts' hy'
      refine ⟨(p, t) :: before, q, s, after, rfl, ?_⟩
      rw [write_cons, hk]
      simp

/-- An identifier occurs at a place of its own only. -/
theorem exists_place (named : ∀ x ∈ ps, ∃ n, x.1.token = token n) (free : Free lead)
    (texts : ∀ x ∈ ps, Free x.2) (h : write (·.token) lead ps = u ++ (token n ++ v)) :
    ∃ before p t after, ps = before ++ (p, t) :: after ∧ u = write (·.token) lead before ∧
      p.token = token n := by
  obtain ⟨d, z, digit, opening⟩ := token_stem n
  have inner : write (·.token) lead ps = (u ++ ['_', '_']) ++ (stem ++ d :: (z ++ v)) := by
    rw [h, opening]
    simp
  obtain ⟨before, p, t, after, rfl, same⟩ := exists_place_of_stem named free texts digit inner
  obtain ⟨k, hk⟩ := named (p, t) (by simp)
  obtain rfl := List.append_cancel_right same
  rw [write_append, hk] at h
  refine ⟨before, p, t, after, rfl, rfl, ?_⟩
  rw [hk, token_inj (List.append_cancel_left h)]

end

/-- Identifiers of which no two are the same stand between texts that have nothing of one. -/
structure Arranged (lead : Text) (ps : List (Placeholder × Text)) : Prop where
  named : ∀ x ∈ ps, ∃ n, x.1.token = token n
  distinct : (ps.map (·.1.token)).Nodup
  free : Free lead
  texts : ∀ x ∈ ps, Free x.2

namespace Arranged
variable {lead t u v : Text} {p q : Placeholder} {ps before after : List (Placeholder × Text)}

theorem eq_before (h : Arranged lead ps) {before' after' : List (Placeholder × Text)} {s : Text}
    (hp : ps = before ++ (p, t) :: after) (hq : ps = before' ++ (q, s) :: after')
    (same : p.token = q.token) : before = before' := by
  have once := h.distinct
  have inside : before.length < (ps.map (·.1.token)).length := by simp [hp]
  have here : (ps.map (·.1.token))[before.length]? = some p.token := by simp [hp]
  have there : (ps.map (·.1.token))[before'.length]? = some q.token := by simp [hq]
  have width := (List.getElem?_inj inside once).1 (here.trans (same ▸ there.symm))
  exact (List.append_inj (hp.symm.trans hq) width).1

/-- An identifier is found at its own place, and once. -/
theorem splitOnly? (h : Arranged lead ps) (hs : ps = before ++ (p, t) :: after) :
    Text.splitOnly? p.token (write (·.token) lead ps) =
      some (write (·.token) lead before, write (·.token) t after) := by
  have whole : write (·.token) lead ps =
      write (·.token) lead before ++ (p.token ++ write (·.token) t after) := by
    rw [hs, write_append]
  obtain ⟨n, hn⟩ : ∃ n, p.token = token n := h.named (p, t) (by simp [hs])
  have place {u v : Text} (huv : write (·.token) lead ps = u ++ (p.token ++ v)) :
      u = write (·.token) lead before := by
    rw [hn] at huv
    obtain ⟨before', q, s, after', hs', rfl, same⟩ := exists_place h.named h.free h.texts huv
    rw [h.eq_before hs hs' (hn.trans same.symm)]
  obtain ⟨⟨b, a⟩, found⟩ := Option.isSome_iff_exists.1 (Text.splitFirst?_isSome whole)
  have first := (Text.splitFirst?_spec found).1
  obtain rfl := place first
  obtain rfl := List.append_cancel_left (List.append_cancel_left (whole.symm.trans first))
  have alone : Text.splitFirst? p.token (write (·.token) t after) = none := by
    cases again : Text.splitFirst? p.token (write (·.token) t after) with
    | none => rfl
    | some parts =>
      have second : write (·.token) lead ps =
          (write (·.token) lead before ++ (p.token ++ parts.1)) ++ (p.token ++ parts.2) := by
        rw [whole, (Text.splitFirst?_spec again).1]
        simp
      have longer := congrArg List.length (place second)
      have := length_token n
      simp only [List.length_append, hn] at longer
      omega
  rw [Text.splitOnly?, found]
  simp [alone]

theorem only (h : Arranged lead ps) (hp : p ∈ ps.map (·.1)) :
    (Text.splitOnly? p.token (write (·.token) lead ps)).isSome = true := by
  obtain ⟨x, hx, rfl⟩ := List.mem_map.1 hp
  obtain ⟨before, after, hs⟩ := List.append_of_mem hx
  rw [h.splitOnly? hs]
  rfl

theorem inPlace (h : Arranged lead ps) : InPlace lead ps := fun _ _ _ _ hs =>
  Text.splitFirst?_of_splitOnly? (h.splitOnly? hs)

/-- Two identifiers are not found at one place. -/
theorem firstAt_inj (h : Arranged lead ps) (hp : p ∈ ps.map (·.1)) (hq : q ∈ ps.map (·.1))
    (same : firstAt p.token (write (·.token) lead ps) = firstAt q.token (write (·.token) lead ps)) :
    p = q := by
  obtain ⟨x, hx, rfl⟩ := List.mem_map.1 hp
  obtain ⟨y, hy, rfl⟩ := List.mem_map.1 hq
  have tokens : x.1.token = y.1.token :=
    eq_of_firstAt (h.named x hx) (h.named y hy) (h.only hp) (h.only hq) same
  exact congrArg Prod.fst (List.inj_on_of_nodup_map h.distinct hx hy tokens)

end Arranged

section
variable {raw : Text}

theorem nodup_pieces (raw : Text) : ((pieces raw).map (·.1.token)).Nodup := by
  obtain ⟨ks, tokens, ascending, -, -⟩ := number_spec raw 0 ((split raw).2.map (·.1))
  rw [← placeholders_of_pieces, List.map_map] at tokens
  have distinct : (ks.map token).Nodup :=
    (List.nodup_map_iff fun a b h => token_inj (congrArg (· ++ []) h)).2
      (ascending.imp Nat.ne_of_lt)
  rwa [← tokens] at distinct

/-- What stands around the expressions of a text without the stem has none either. -/
theorem arranged_pieces (free : Free raw) : Arranged (split raw).1 (pieces raw) where
  named := named_pieces raw
  distinct := nodup_pieces raw
  free := by
    rw [← write_expression raw, write] at free
    exact Free.of_append (u := []) free
  texts x hx := by
    obtain ⟨before, after, hs⟩ := List.append_of_mem hx
    rw [← write_expression raw, hs, write_append, ← List.append_assoc, write] at free
    exact free.of_append

/-- Masking succeeds if each identifier occurs once in the masked text. -/
theorem mask_of_only (only : ∀ p ∈ (pieces raw).map (·.1),
      (Text.splitOnly? p.token (write (·.token) (split raw).1 (pieces raw))).isSome = true) :
    mask raw = some ⟨write (·.token) (split raw).1 (pieces raw), (pieces raw).map (·.1)⟩ := by
  have masked := mask_write (by rw [parts_of_pieces]; exact clear_split raw) rfl
    (fun k => by rw [write_expression]) only
  rwa [write_expression] at masked

/-- No identifier is taken in a text without the stem. -/
theorem fresh_of_free (free : Free raw) (n : Nat) : fresh raw n = n := by
  by_contra later
  obtain ⟨least, -, taken⟩ := fresh_spec raw n
  have occurs := taken n (Nat.le_refl n) (by omega)
  obtain ⟨⟨b, a⟩, found⟩ := Option.isSome_iff_exists.1 occurs
  obtain ⟨d, v, -, opening⟩ := token_stem n
  have whole := (Text.splitFirst?_spec found).1
  rw [opening] at whole
  refine free_iff.1 free (b ++ ['_', '_']) (d :: v ++ a) ?_
  rw [whole]
  simp

theorem number_of_free (free : Free raw) (n : Nat) (es : List Text) :
    (number raw n es).map (·.token) = (List.range' n es.length).map token := by
  induction es generalizing n with
  | nil => rfl
  | cons e es ih =>
    rw [number, fresh_of_free free, List.map_cons, ih, List.length_cons, List.range'_succ,
      List.map_cons]

/-- A text without the stem can be masked: its expressions get the first identifiers in turn. Whatever
order the identifiers are then put in and whatever texts without the stem stand between them,
unmasking puts each expression where its identifier stands. In particular the masked text gives the
text back. -/
theorem unmask_arranged (free : Free raw) :
    ∃ m, mask raw = some m ∧
      m.placeholders.map (·.expression) = (split raw).2.map (·.1) ∧
      m.placeholders.map (·.token) = (List.range m.placeholders.length).map token ∧
      (∀ lead ps, (ps.map (·.1)).Perm m.placeholders → Free lead → (∀ x ∈ ps, Free x.2) →
        unmask (write (·.token) lead ps) m.placeholders = some (write (·.expression) lead ps)) ∧
      unmask m.text m.placeholders = some raw := by
  have own := arranged_pieces free
  have masked : mask raw = some _ := mask_of_only fun p hp => own.only hp
  have anywhere (lead : Text) (ps : List (Placeholder × Text))
      (perm : (ps.map (·.1)).Perm ((pieces raw).map (·.1))) (first : Free lead)
      (texts : ∀ x ∈ ps, Free x.2) :
      unmask (write (·.token) lead ps) ((pieces raw).map (·.1)) =
        some (write (·.expression) lead ps) := by
    have among : ∀ x ∈ ps, ∃ y ∈ pieces raw, y.1 = x.1 := fun x hx =>
      List.mem_map.1 (perm.subset (List.mem_map_of_mem hx))
    have arranged : Arranged lead ps := by
      refine ⟨fun x hx => ?_, ?_, first, texts⟩
      · obtain ⟨y, hy, same⟩ := among x hx
        exact same ▸ named_pieces raw y hy
      · have tokens := (perm.map (·.token)).nodup_iff.2
        rw [List.map_map, List.map_map] at tokens
        exact tokens (nodup_pieces raw)
    rw [unmask_perm perm.symm (fun p hp => arranged.only hp) fun p hp q hq => arranged.firstAt_inj hp hq]
    refine unmask_inPlace arranged.named (fun x hx => ?_) (fun p hp => arranged.only hp) arranged.inPlace
    obtain ⟨y, hy, same⟩ := among x hx
    exact same ▸ head_of_expression hy
  obtain ⟨-, -, -, -, expressions⟩ := number_spec raw 0 ((split raw).2.map (·.1))
  rw [← placeholders_of_pieces] at expressions
  refine ⟨_, masked, expressions, ?_, anywhere, ?_⟩
  · have count : ((pieces raw).map (·.1)).length = ((split raw).2.map (·.1)).length := by
      simpa using congrArg List.length expressions
    dsimp only
    rw [count, List.range_eq_range', ← number_of_free free, placeholders_of_pieces]
  · have back := anywhere (split raw).1 (pieces raw) (.refl _) own.free own.texts
    rwa [write_expression] at back

end

/-- The second expression comes first, and all but the end of the stem stands before either
identifier. -/
theorem unmask_arranged_exchanged :
    Free "{a} {b}".toList ∧
      ∃ m, mask "{a} {b}".toList = some m ∧ m.placeholders.map (·.expression) = ["{a}".toList, "{b}".toList] ∧
        unmask "__ESQL_MASK__ESQL_MASK_1__ESQL_MASK__ESQL_MASK_0___0__".toList m.placeholders =
          some "__ESQL_MASK{b}ESQL_MASK{a}_0__".toList := by
  have free : Free "{a} {b}".toList := by
    rw [Free]
    decide
  obtain ⟨m, masked, -, -, anywhere, -⟩ := unmask_arranged free
  have value : mask "{a} {b}".toList = some ⟨"__ESQL_MASK_0__ __ESQL_MASK_1__".toList,
      [⟨"__ESQL_MASK_0__".toList, "{a}".toList⟩, ⟨"__ESQL_MASK_1__".toList, "{b}".toList⟩]⟩ := by
    with_unfolding_all decide
  obtain rfl := Option.some.inj (masked.symm.trans value)
  refine ⟨free, _, value, rfl, ?_⟩
  have texts : ∀ t ∈ ["__ESQL_MASK".toList, "ESQL_MASK".toList, "_0__".toList], Free t := by
    simp only [Free, List.forall_mem_cons, List.not_mem_nil, false_imp_iff, implies_true, and_true]
    refine ⟨?_, ?_, ?_⟩ <;> decide
  refine anywhere "__ESQL_MASK".toList
    [(⟨"__ESQL_MASK_1__".toList, "{b}".toList⟩, "ESQL_MASK".toList),
      (⟨"__ESQL_MASK_0__".toList, "{a}".toList⟩, "_0__".toList)] (.swap _ _ _) (texts _ (by simp)) ?_
  intro x hx
  simp only [List.mem_cons, List.not_mem_nil, or_false] at hx
  rcases hx with rfl | rfl <;> exact texts _ (by simp)

end HostSql.Mask
